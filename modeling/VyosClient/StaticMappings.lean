import Mathlib.Data.List.Flatten
import VyosClient.FormDiff
import VyosClient.Tables

/-!
The static mapping of a DHCP lease, found by a search through the shared
networks or in an index built of them once. The search stops at the first
mapping of the lease's own subnet, where the index keeps the last one set under
the lease's key; the two agree exactly where no later mapping takes the key.
-/

namespace VyosClient.StaticMappings

open FormDiff Tables
open scoped List

/-- Objects are compared by reference, so a mapping carries which object it is. -/
structure DHCPStaticMapping where
  ref : ℕ
  name : String
  mac : Option String
  duid : Option String
  ipAddress : Option String
  deriving DecidableEq

structure DHCPSubnet where
  cidr : String
  staticMappings : List DHCPStaticMapping
  deriving DecidableEq

structure DHCPSharedNetwork where
  name : String
  subnets : List DHCPSubnet
  deriving DecidableEq

structure DHCPLease where
  macAddress : String
  pool : String
  subnet : Option String

def allMappings (sharedNetworks : List DHCPSharedNetwork) : List DHCPStaticMapping :=
  sharedNetworks.flatMap fun network => network.subnets.flatMap fun subnet => subnet.staticMappings

/-- The parser builds every mapping anew: no object stands at two places. -/
structure SharedNetworks where
  list : List DHCPSharedNetwork
  refs_nodup : ((allMappings list).map fun mapping => mapping.ref).Nodup

def subnetForLease (lease : DHCPLease) (sharedNetworks : List DHCPSharedNetwork) :
    Option DHCPSubnet :=
  match lease.subnet with
  | none => none
  | some cidr =>
    if cidr = "" then none
    else
      (sharedNetworks.find? fun network => network.name = lease.pool).bind fun network =>
        network.subnets.find? fun subnet => subnet.cidr = cidr

section Lookups

-- the letters `toLowerCase` changes decide nothing here: it is any function
variable (toLowerCase : String → String)

/-- The `trim().toLowerCase()` that both lookups compare MACs by. -/
def normalizedMac (mac : String) : String := toLowerCase (trim mac)

def findStaticMapping (lease : DHCPLease) (sharedNetworks : List DHCPSharedNetwork) :
    Option DHCPStaticMapping :=
  let mac := normalizedMac toLowerCase lease.macAddress
  if mac = "" then none
  else
    (subnetForLease lease sharedNetworks).bind fun subnet =>
      subnet.staticMappings.find? fun mapping =>
        mapping.mac.map (normalizedMac toLowerCase) = some mac

def staticMappingIndexKey (poolName cidr mac : String) : String :=
  poolName ++ "\x00" ++ cidr ++ "\x00" ++ mac

/-- The body of the innermost loop of `buildStaticMappingIndex`. -/
def setMapping (poolName cidr : String) (index : Table String DHCPStaticMapping)
    (mapping : DHCPStaticMapping) : Table String DHCPStaticMapping :=
  match mapping.mac.map (normalizedMac toLowerCase) with
  | none => index
  | some mac =>
    if mac = "" then index
    else index.insert (staticMappingIndexKey poolName cidr mac) mapping

def buildStaticMappingIndex (sharedNetworks : List DHCPSharedNetwork) :
    Table String DHCPStaticMapping :=
  sharedNetworks.foldl
    (fun index network =>
      network.subnets.foldl
        (fun index subnet =>
          subnet.staticMappings.foldl (setMapping toLowerCase network.name subnet.cidr) index)
        index)
    ∅

def findStaticMappingIndexed (lease : DHCPLease) (index : Table String DHCPStaticMapping) :
    Option DHCPStaticMapping :=
  let mac := normalizedMac toLowerCase lease.macAddress
  match lease.subnet with
  | none => none
  | some cidr =>
    if mac = "" ∨ lease.pool = "" ∨ cidr = "" then none
    else index.lookup (staticMappingIndexKey lease.pool cidr mac)

/-- Whether the index files a mapping of this network and subnet under the key. -/
def hasKey (key poolName cidr : String) (mapping : DHCPStaticMapping) : Bool :=
  (mapping.mac.map (normalizedMac toLowerCase)).any fun mac =>
    mac ≠ "" ∧ key = staticMappingIndexKey poolName cidr mac

/-- The mappings set under a key, in the order in which they are. -/
def keyedMappings (key : String) (sharedNetworks : List DHCPSharedNetwork) :
    List DHCPStaticMapping :=
  sharedNetworks.flatMap fun network => network.subnets.flatMap fun subnet =>
    subnet.staticMappings.filter (hasKey toLowerCase key network.name subnet.cidr)

/-- The mappings with the lease's MAC in the one subnet that the search looks at. -/
def ownMappings (lease : DHCPLease) (sharedNetworks : List DHCPSharedNetwork) :
    List DHCPStaticMapping :=
  ((subnetForLease lease sharedNetworks).elim [] fun subnet => subnet.staticMappings).filter
    fun mapping => mapping.mac.map (normalizedMac toLowerCase) =
      some (normalizedMac toLowerCase lease.macAddress)

/-- What is set under the key is last set by one of the lease's own mappings, if by any. -/
structure Undisputed (own keyed : List DHCPStaticMapping) : Prop where
  reached : keyed ≠ [] → own ≠ []
  last : ∀ mapping ∈ own, ∀ later, ¬ [mapping, later] <+ keyed

/-- The lookups skip the lease; or the search finds nothing in a network without a name, which the
index does not look for; or no other mapping disputes the key. -/
def Consistent (lease : DHCPLease) (sharedNetworks : List DHCPSharedNetwork) : Prop :=
  let mac := normalizedMac toLowerCase lease.macAddress
  let own := ownMappings toLowerCase lease sharedNetworks
  ∀ cidr, lease.subnet = some cidr → mac ≠ "" → cidr ≠ "" →
    (lease.pool = "" → own = []) ∧
      (lease.pool ≠ "" → Undisputed own
        (keyedMappings toLowerCase (staticMappingIndexKey lease.pool cidr mac) sharedNetworks))

end Lookups

section FirstAndLast

variable {α : Type*} {own keyed : List α} {a : α}

theorem getLast?_eq_head?_of_last (hsub : own <+ keyed) (hreached : keyed ≠ [] → own ≠ [])
    (hlast : ∀ a ∈ own, ∀ b, ¬ [a, b] <+ keyed) : keyed.getLast? = own.head? := by
  cases own with
  | nil =>
    have hnil : keyed = [] := not_not.mp fun h => hreached h rfl
    rw [hnil]
    rfl
  | cons a rest =>
    have hmem : a ∈ keyed := hsub.subset List.mem_cons_self
    obtain ⟨front, b, rfl⟩ :=
      (List.eq_nil_or_concat' keyed).resolve_left (List.ne_nil_of_mem hmem)
    rw [List.getLast?_concat, List.head?_cons]
    rcases List.mem_append.mp hmem with hfront | hend
    · have hpair : [a] ++ [b] <+ front ++ [b] :=
        (List.singleton_sublist.mpr hfront).append (List.Sublist.refl [b])
      exact absurd hpair (hlast a List.mem_cons_self b)
    · rw [List.mem_singleton.mp hend]

theorem not_sublist_of_getLast? (hnodup : keyed.Nodup) (h : keyed.getLast? = some a) (b : α) :
    ¬ [a, b] <+ keyed := by
  intro hpair
  obtain ⟨front, back, rfl, hfront, hb⟩ := List.cons_sublist_iff.mp hpair
  have hback : back ≠ [] := List.ne_nil_of_mem (List.singleton_sublist.mp hb)
  rw [List.getLast?_append_of_ne_nil front hback] at h
  exact (List.nodup_append'.mp hnodup).2.2 hfront (List.mem_of_getLast? h)

/-- In a list without repetition the last element is the first of a part of the list exactly when
the part is not missed and nothing follows an element of it. -/
theorem getLast?_eq_head?_iff (hsub : own <+ keyed) (hnodup : keyed.Nodup) :
    keyed.getLast? = own.head? ↔
      (keyed ≠ [] → own ≠ []) ∧ ∀ a ∈ own, ∀ b, ¬ [a, b] <+ keyed := by
  constructor
  · intro h
    refine ⟨fun hkeyed hown => ?_, fun a ha b hpair => ?_⟩
    · rw [hown] at h
      exact hkeyed (List.getLast?_eq_none_iff.mp h)
    · cases own with
      | nil => exact List.not_mem_nil ha
      | cons first rest =>
        have hlast := not_sublist_of_getLast? hnodup h
        rcases List.mem_cons.mp ha with rfl | hrest
        · exact hlast b hpair
        · exact hlast a (((List.singleton_sublist.mpr hrest).cons_cons first).trans hsub)
  · rintro ⟨hreached, hlast⟩
    exact getLast?_eq_head?_of_last hsub hreached hlast

end FirstAndLast

section Agreement

variable {toLowerCase : String → String} {key : String}

theorem lookup_setMapping (poolName cidr : String) (index : Table String DHCPStaticMapping)
    (mapping : DHCPStaticMapping) :
    (setMapping toLowerCase poolName cidr index mapping).lookup key =
      (([mapping].filter (hasKey toLowerCase key poolName cidr)).getLast?).or
        (index.lookup key) := by
  unfold setMapping
  cases hmac : mapping.mac.map (normalizedMac toLowerCase) with
  | none =>
    have hno : hasKey toLowerCase key poolName cidr mapping = false := by
      rw [hasKey, hmac, Option.any_none]
    rw [List.filter_singleton, hno]
    rfl
  | some mac =>
    have hkey : hasKey toLowerCase key poolName cidr mapping =
        decide (mac ≠ "" ∧ key = staticMappingIndexKey poolName cidr mac) := by
      rw [hasKey, hmac, Option.any_some]
    rw [List.filter_singleton, hkey]
    dsimp only
    by_cases hblank : mac = ""
    · rw [if_pos hblank, decide_eq_false fun h => h.1 hblank]
      rfl
    · rw [if_neg hblank, lookup_insert_apply]
      by_cases hsame : key = staticMappingIndexKey poolName cidr mac
      · rw [if_pos hsame, decide_eq_true ⟨hblank, hsame⟩]
        rfl
      · rw [if_neg hsame, decide_eq_false fun h => hsame h.2]
        rfl

/-- The index holds, under each key, the last mapping set there. -/
theorem lookup_buildStaticMappingIndex (key : String) (sharedNetworks : List DHCPSharedNetwork) :
    (buildStaticMappingIndex toLowerCase sharedNetworks).lookup key =
      (keyedMappings toLowerCase key sharedNetworks).getLast? := by
  have hsubnet : ∀ (poolName : String) (index : Table String DHCPStaticMapping)
      (subnet : DHCPSubnet),
      (subnet.staticMappings.foldl (setMapping toLowerCase poolName subnet.cidr) index).lookup key =
        ((subnet.staticMappings.filter (hasKey toLowerCase key poolName subnet.cidr)).getLast?).or
          (index.lookup key) := by
    intro poolName index subnet
    rw [lookup_foldl (lookup_setMapping poolName subnet.cidr), ← List.filter_flatMap,
      List.flatMap_singleton']
  have hnetwork := fun (index : Table String DHCPStaticMapping) (network : DHCPSharedNetwork) =>
    lookup_foldl (hsubnet network.name) network.subnets index
  unfold buildStaticMappingIndex keyedMappings
  rw [lookup_foldl hnetwork, AList.lookup_empty, Option.or_none]

theorem findStaticMapping_eq_head? {lease : DHCPLease}
    (hmac : normalizedMac toLowerCase lease.macAddress ≠ "")
    (sharedNetworks : List DHCPSharedNetwork) :
    findStaticMapping toLowerCase lease sharedNetworks =
      (ownMappings toLowerCase lease sharedNetworks).head? := by
  unfold findStaticMapping ownMappings
  dsimp only
  rw [if_neg hmac]
  cases subnetForLease lease sharedNetworks with
  | none => rfl
  | some subnet => exact List.head?_filter.symm

theorem mem_of_subnetForLease {lease : DHCPLease} {sharedNetworks : List DHCPSharedNetwork}
    {cidr : String} {subnet : DHCPSubnet} (hlease : lease.subnet = some cidr)
    (h : subnetForLease lease sharedNetworks = some subnet) :
    ∃ network ∈ sharedNetworks, network.name = lease.pool ∧
      subnet ∈ network.subnets ∧ subnet.cidr = cidr := by
  simp only [subnetForLease, hlease] at h
  split at h
  · cases h
  · obtain ⟨network, hnetwork, hsubnet⟩ := Option.bind_eq_some_iff.mp h
    have hname : network.name = lease.pool := by simpa using List.find?_some hnetwork
    have hcidr : subnet.cidr = cidr := by simpa using List.find?_some hsubnet
    exact ⟨network, List.mem_of_find?_eq_some hnetwork, hname,
      List.mem_of_find?_eq_some hsubnet, hcidr⟩

theorem sublist_flatMap_of_mem {α β : Type*} {xs : List α} {x : α} (h : x ∈ xs)
    (f : α → List β) : f x <+ xs.flatMap f :=
  List.sublist_flatten_of_mem (List.mem_map_of_mem h)

/-- What the search can find is set under the lease's key. -/
theorem ownMappings_sublist {lease : DHCPLease} {cidr : String}
    (hlease : lease.subnet = some cidr) (hmac : normalizedMac toLowerCase lease.macAddress ≠ "")
    (sharedNetworks : List DHCPSharedNetwork) :
    ownMappings toLowerCase lease sharedNetworks <+
      keyedMappings toLowerCase
        (staticMappingIndexKey lease.pool cidr (normalizedMac toLowerCase lease.macAddress))
        sharedNetworks := by
  unfold ownMappings
  cases hsubnet : subnetForLease lease sharedNetworks with
  | none => exact List.nil_sublist _
  | some subnet =>
    obtain ⟨network, hnetwork, hname, hmem, hcidr⟩ := mem_of_subnetForLease hlease hsubnet
    have hkeyed : ∀ mapping : DHCPStaticMapping,
        mapping.mac.map (normalizedMac toLowerCase) =
            some (normalizedMac toLowerCase lease.macAddress) →
          hasKey toLowerCase
            (staticMappingIndexKey lease.pool cidr (normalizedMac toLowerCase lease.macAddress))
            network.name subnet.cidr mapping = true := by
      intro mapping h
      rw [hasKey, h, Option.any_some, hname, hcidr]
      exact decide_eq_true ⟨hmac, rfl⟩
    refine List.Sublist.trans ?_ (sublist_flatMap_of_mem hnetwork _)
    refine List.Sublist.trans ?_ (sublist_flatMap_of_mem hmem _)
    exact List.monotone_filter_right _ fun mapping h => hkeyed mapping (of_decide_eq_true h)

theorem keyedMappings_sublist (key : String) (sharedNetworks : List DHCPSharedNetwork) :
    keyedMappings toLowerCase key sharedNetworks <+ allMappings sharedNetworks :=
  List.Sublist.flatMap_right _ fun _ _ =>
    List.Sublist.flatMap_right _ fun _ _ => List.filter_sublist

theorem keyedMappings_nodup (key : String) (sharedNetworks : SharedNetworks) :
    (keyedMappings toLowerCase key sharedNetworks.list).Nodup :=
  (keyedMappings_sublist key _).nodup sharedNetworks.refs_nodup.of_map

/-- A lease without a MAC or a subnet is skipped by both lookups. -/
theorem lookups_eq_none {lease : DHCPLease} (sharedNetworks : List DHCPSharedNetwork)
    (index : Table String DHCPStaticMapping)
    (h : ∀ cidr, lease.subnet = some cidr → normalizedMac toLowerCase lease.macAddress ≠ "" →
      cidr = "") :
    findStaticMappingIndexed toLowerCase lease index = none ∧
      findStaticMapping toLowerCase lease sharedNetworks = none := by
  unfold findStaticMappingIndexed findStaticMapping subnetForLease
  dsimp only
  cases hlease : lease.subnet with
  | none => exact ⟨rfl, ite_self _⟩
  | some cidr =>
    by_cases hmac : normalizedMac toLowerCase lease.macAddress = ""
    · exact ⟨if_pos (Or.inl hmac), if_pos hmac⟩
    · have hcidr := h cidr hlease hmac
      refine ⟨if_pos (Or.inr (Or.inr hcidr)), ?_⟩
      dsimp only
      rw [if_neg hmac, if_pos hcidr]
      rfl

theorem findStaticMappingIndexed_eq {lease : DHCPLease} {cidr : String}
    (hlease : lease.subnet = some cidr) (hmac : normalizedMac toLowerCase lease.macAddress ≠ "")
    (hcidr : cidr ≠ "") (sharedNetworks : List DHCPSharedNetwork) :
    findStaticMappingIndexed toLowerCase lease
        (buildStaticMappingIndex toLowerCase sharedNetworks) =
      if lease.pool = "" then none
      else (keyedMappings toLowerCase
        (staticMappingIndexKey lease.pool cidr (normalizedMac toLowerCase lease.macAddress))
        sharedNetworks).getLast? := by
  simp only [findStaticMappingIndexed, hlease]
  by_cases hpool : lease.pool = ""
  · rw [if_pos hpool, if_pos (Or.inr (Or.inl hpool))]
  · rw [if_neg hpool, if_neg (not_or.mpr ⟨hmac, not_or.mpr ⟨hpool, hcidr⟩⟩),
      lookup_buildStaticMappingIndex]

/-- The last mapping set against the first one found. -/
theorem lookups_eq_iff (lease : DHCPLease) (sharedNetworks : List DHCPSharedNetwork) :
    findStaticMappingIndexed toLowerCase lease
        (buildStaticMappingIndex toLowerCase sharedNetworks) =
      findStaticMapping toLowerCase lease sharedNetworks ↔
      ∀ cidr, lease.subnet = some cidr →
        normalizedMac toLowerCase lease.macAddress ≠ "" → cidr ≠ "" →
        (lease.pool = "" → ownMappings toLowerCase lease sharedNetworks = []) ∧
          (lease.pool ≠ "" →
            (keyedMappings toLowerCase
              (staticMappingIndexKey lease.pool cidr (normalizedMac toLowerCase lease.macAddress))
              sharedNetworks).getLast? = (ownMappings toLowerCase lease sharedNetworks).head?) := by
  by_cases hread : ∃ cidr, lease.subnet = some cidr ∧
      normalizedMac toLowerCase lease.macAddress ≠ "" ∧ cidr ≠ ""
  · obtain ⟨cidr, hlease, hmac, hcidr⟩ := hread
    rw [findStaticMappingIndexed_eq hlease hmac hcidr, findStaticMapping_eq_head? hmac]
    by_cases hpool : lease.pool = ""
    · rw [if_pos hpool]
      constructor
      · intro h cidr' _ _ _
        exact ⟨fun _ => List.head?_eq_none_iff.mp h.symm, fun hne => absurd hpool hne⟩
      · intro h
        rw [(h cidr hlease hmac hcidr).1 hpool]
        rfl
    · rw [if_neg hpool]
      constructor
      · intro h cidr' hlease' _ _
        obtain rfl : cidr = cidr' := Option.some.inj (hlease.symm.trans hlease')
        exact ⟨fun heq => absurd heq hpool, fun _ => h⟩
      · intro h
        exact (h cidr hlease hmac hcidr).2 hpool
  · have hskip : ∀ cidr, lease.subnet = some cidr →
        normalizedMac toLowerCase lease.macAddress ≠ "" → cidr = "" := by
      intro cidr hlease hmac
      exact by_contra fun hcidr => hread ⟨cidr, hlease, hmac, hcidr⟩
    obtain ⟨hindexed, hplain⟩ := lookups_eq_none sharedNetworks
      (buildStaticMappingIndex toLowerCase sharedNetworks) hskip
    rw [hindexed, hplain]
    refine iff_of_true rfl fun cidr hlease hmac hcidr => ?_
    exact absurd (hskip cidr hlease hmac) hcidr

/-- Where nothing disputes the lease's key the index serves every list of networks. -/
theorem findStaticMappingIndexed_of_consistent {lease : DHCPLease}
    {sharedNetworks : List DHCPSharedNetwork}
    (h : Consistent toLowerCase lease sharedNetworks) :
    findStaticMappingIndexed toLowerCase lease
        (buildStaticMappingIndex toLowerCase sharedNetworks) =
      findStaticMapping toLowerCase lease sharedNetworks := by
  refine (lookups_eq_iff lease sharedNetworks).mpr fun cidr hlease hmac hcidr => ?_
  obtain ⟨hunnamed, hnamed⟩ := h cidr hlease hmac hcidr
  refine ⟨hunnamed, fun hpool => ?_⟩
  obtain ⟨hreached, hlast⟩ := hnamed hpool
  exact getLast?_eq_head?_of_last (ownMappings_sublist hlease hmac sharedNetworks) hreached hlast

/-- The index returns what the search does exactly where nothing disputes the lease's key. -/
theorem findStaticMappingIndexed_eq_iff (toLowerCase : String → String) (lease : DHCPLease)
    (sharedNetworks : SharedNetworks) :
    findStaticMappingIndexed toLowerCase lease
        (buildStaticMappingIndex toLowerCase sharedNetworks.list) =
      findStaticMapping toLowerCase lease sharedNetworks.list ↔
      Consistent toLowerCase lease sharedNetworks.list := by
  refine ⟨fun h => ?_, findStaticMappingIndexed_of_consistent⟩
  intro cidr hlease hmac hcidr
  obtain ⟨hunnamed, hnamed⟩ :=
    (lookups_eq_iff lease sharedNetworks.list).mp h cidr hlease hmac hcidr
  refine ⟨hunnamed, fun hpool => ?_⟩
  obtain ⟨hreached, hlast⟩ :=
    (getLast?_eq_head?_iff (ownMappings_sublist hlease hmac sharedNetworks.list)
      (keyedMappings_nodup _ sharedNetworks)).mp (hnamed hpool)
  exact ⟨hreached, hlast⟩

/-- `toLowerCase` on the letters of a MAC address. -/
def lowerAscii (s : String) : String := String.ofList (s.toList.map Char.toLower)

/-- One subnet that reserves an address for the same MAC twice, in different letter case. -/
def sharedLan : SharedNetworks where
  list := [⟨"LAN", [⟨"192.168.1.0/24",
    [⟨0, "new", some "aa:bb:cc:dd:ee:ff", none, some "192.168.1.10"⟩,
      ⟨1, "old", some "AA:BB:CC:DD:EE:FF", none, some "192.168.1.20"⟩]⟩]⟩]
  refs_nodup := by decide

theorem findStaticMappingIndexed_last_wins :
    (findStaticMapping lowerAscii ⟨"aa:bb:cc:dd:ee:ff", "LAN", some "192.168.1.0/24"⟩
        sharedLan.list).map (fun mapping => mapping.name) = some "new" ∧
      (findStaticMappingIndexed lowerAscii ⟨"aa:bb:cc:dd:ee:ff", "LAN", some "192.168.1.0/24"⟩
        (buildStaticMappingIndex lowerAscii sharedLan.list)).map (fun mapping => mapping.name) =
          some "old" := by
  decide +kernel

end Agreement

end VyosClient.StaticMappings
