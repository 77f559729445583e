import Rustodon.Remote.Url

/-! @src remote.rs | name:Addresses | scheme:bit prefixes | family:remote

    The addresses that a host is looked up to, and which of them are blocked. -/

namespace Rustodon.Remote
open Schemes.Utf8

structure SocketAddr where
  ip : IpAddr
  port : ℕ
  deriving DecidableEq, Repr

/-! ### Blocked addresses -/

/-- `octets()[i]`. -/
def octet (address : BitVec 32) (i : ℕ) : ℕ := (address.extractLsb' (24 - 8 * i) 8).toNat

def isPrivate (address : BitVec 32) : Bool :=
  octet address 0 == 10 ||
    (octet address 0 == 172 && decide (16 ≤ octet address 1 ∧ octet address 1 ≤ 31)) ||
    (octet address 0 == 192 && octet address 1 == 168)

def isLoopback (address : BitVec 32) : Bool := octet address 0 == 127

def isLinkLocal (address : BitVec 32) : Bool := octet address 0 == 169 && octet address 1 == 254

def isMulticast (address : BitVec 32) : Bool := decide (224 ≤ octet address 0 ∧ octet address 0 ≤ 239)

def inIpv4Range (value start stop : ℕ) : Bool := decide (start ≤ value ∧ value ≤ stop)

def blockedIpv4 (address : BitVec 32) : Bool :=
  let value := address.toNat
  isPrivate address || isLoopback address || isLinkLocal address || value == 0 ||
    isMulticast address || value == 0xffffffff ||
    inIpv4Range value 0 0x00ffffff ||
    inIpv4Range value 0x64400000 0x647fffff ||
    inIpv4Range value 0xc0000000 0xc00000ff ||
    inIpv4Range value 0xc0000200 0xc00002ff ||
    inIpv4Range value 0xc0586300 0xc05863ff ||
    inIpv4Range value 0xc6120000 0xc613ffff ||
    inIpv4Range value 0xc6336400 0xc63364ff ||
    inIpv4Range value 0xcb007100 0xcb0071ff ||
    inIpv4Range value 0xf0000000 0xffffffff

/-- `segments()[i]`. -/
def segment (address : BitVec 128) (i : ℕ) : BitVec 16 := address.extractLsb' (112 - 16 * i) 16

def prefixMatches (value addressPrefix : BitVec 128) (bits : ℕ) : Bool :=
  let mask := BitVec.allOnes 128 <<< (128 - bits)
  value &&& mask == addressPrefix &&& mask

def blockedIpv6 (address : BitVec 128) : Bool :=
  let mappedIpv4 := (List.range 5).all (fun i => segment address i == 0) &&
    (segment address 5 == 0 || segment address 5 == 0xffff)
  let compatibleIpv4 := (List.range 6).all fun i => segment address i == 0
  let embeddedIpv4 := address.extractLsb' 0 32
  ((mappedIpv4 || compatibleIpv4) && blockedIpv4 embeddedIpv4) ||
    address == 0 ||
    address == 1 ||
    prefixMatches address 0xfe800000000000000000000000000000 10 ||
    prefixMatches address 0x0064ff9b000000000000000000000000 96 ||
    prefixMatches address 0x0064ff9b000100000000000000000000 48 ||
    prefixMatches address 0x01000000000000000000000000000000 64 ||
    prefixMatches address 0x20010000000000000000000000000000 32 ||
    prefixMatches address 0x20010010000000000000000000000000 28 ||
    prefixMatches address 0x20010020000000000000000000000000 28 ||
    prefixMatches address 0x20010db8000000000000000000000000 32 ||
    prefixMatches address 0x20020000000000000000000000000000 16 ||
    prefixMatches address 0xfc000000000000000000000000000000 7 ||
    prefixMatches address 0x3fff0000000000000000000000000000 20 ||
    prefixMatches address 0xff000000000000000000000000000000 8

def isBlockedIp : IpAddr → Bool
  | .v4 address => blockedIpv4 address
  | .v6 address => blockedIpv6 address

def validateResolvedAddresses (addresses : List SocketAddr) : Fetched Unit :=
  if addresses = [] then .error .noAddresses
  else
    match addresses.find? fun address => isBlockedIp address.ip with
    | some address => .error (.blockedAddress address.ip)
    | none => .ok ()

/-! ### Resolution -/

def maxResolvedAddresses : ℕ := 32

/-- Takes addresses from the iterator until there are too many. -/
def collectRemoteAddresses (collected : List SocketAddr) : List SocketAddr → Fetched (List SocketAddr)
  | [] => .ok collected
  | address :: addresses =>
    if maxResolvedAddresses ≤ collected.length then .error .dns
    else collectRemoteAddresses (collected ++ [address]) addresses

/-- `url::Host`. -/
inductive Host where
  | domain (name : Text)
  | ipv4 (address : BitVec 32)
  | ipv6 (address : BitVec 128)
  deriving DecidableEq, Repr

/-- `lookup_host` is what DNS answers at the time. -/
def resolveRemoteAddresses (host : Option Host) (port : Option ℕ)
    (lookupHost : Text → ℕ → Option (List SocketAddr)) : Fetched (List SocketAddr) :=
  match port, host with
  | none, _ | _, none => .error .invalidUrl
  | some port, some (.ipv4 address) => .ok [⟨.v4 address, port⟩]
  | some port, some (.ipv6 address) => .ok [⟨.v6 address, port⟩]
  | some port, some (.domain name) =>
    match lookupHost name port with
    | none => .error .dns
    | some addresses => collectRemoteAddresses [] addresses

/-! ### What is let through -/

theorem collectRemoteAddresses_length {addresses collected result : List SocketAddr}
    (hle : collected.length ≤ maxResolvedAddresses)
    (h : collectRemoteAddresses collected addresses = .ok result) :
    result.length ≤ maxResolvedAddresses := by
  induction addresses generalizing collected with
  | nil =>
    obtain rfl := Except.ok.inj h
    exact hle
  | cons address addresses ih =>
    rw [collectRemoteAddresses] at h
    split_ifs at h with hfull
    refine ih ?_ h
    rw [List.length_append, List.length_singleton]
    omega

theorem resolveRemoteAddresses_length {host : Option Host} {port : Option ℕ}
    {lookupHost : Text → ℕ → Option (List SocketAddr)} {addresses : List SocketAddr}
    (h : resolveRemoteAddresses host port lookupHost = .ok addresses) :
    addresses.length ≤ maxResolvedAddresses := by
  unfold resolveRemoteAddresses at h
  split at h
  · cases h
  · cases h
  · obtain rfl := Except.ok.inj h
    rw [List.length_singleton]
    decide
  · obtain rfl := Except.ok.inj h
    rw [List.length_singleton]
    decide
  · split at h
    · cases h
    · exact collectRemoteAddresses_length (Nat.zero_le _) h

theorem validateResolvedAddresses_spec {addresses : List SocketAddr} {u : Unit}
    (h : validateResolvedAddresses addresses = .ok u) :
    addresses ≠ [] ∧ ∀ address ∈ addresses, isBlockedIp address.ip = false := by
  rw [validateResolvedAddresses] at h
  split_ifs at h with hempty
  split at h
  · cases h
  · rename_i hnone
    refine ⟨hempty, fun address haddress => ?_⟩
    rw [← Bool.not_eq_true]
    exact List.find?_eq_none.mp hnone address haddress

/-! ### Embedded addresses -/

/-- An IPv4 address in the last bits of an IPv6 address. -/
def embed (high : BitVec 96) (address : BitVec 32) : BitVec 128 := high ++ address

def ipv4Mapped (address : BitVec 32) : BitVec 128 := embed 0xffff address

def ipv4Compatible (address : BitVec 32) : BitVec 128 := embed 0 address

/-- The address behind the prefix of a translator. -/
def nat64 (address : BitVec 32) : BitVec 128 := embed 0x0064ff9b0000000000000000 address

theorem getLsbD_embed (high : BitVec 96) (address : BitVec 32) (i : ℕ) :
    (embed high address).getLsbD i =
      if i < 32 then address.getLsbD i else high.getLsbD (i - 32) :=
  BitVec.getLsbD_append

theorem extractLsb'_embed (high : BitVec 96) (address : BitVec 32) :
    (embed high address).extractLsb' 0 32 = address := by
  apply BitVec.eq_of_getLsbD_eq
  intro i hi
  rw [BitVec.getLsbD_extractLsb', Nat.zero_add, getLsbD_embed, if_pos hi]
  simp [hi]

theorem segment_embed (high : BitVec 96) (address : BitVec 32) {i : ℕ} (hi : i < 6) :
    segment (embed high address) i = high.extractLsb' (80 - 16 * i) 16 := by
  apply BitVec.eq_of_getLsbD_eq
  intro j hj
  have hhigh : ¬112 - 16 * i + j < 32 := by omega
  have hindex : 112 - 16 * i + j - 32 = 80 - 16 * i + j := by omega
  rw [segment, BitVec.getLsbD_extractLsb', BitVec.getLsbD_extractLsb', getLsbD_embed,
    if_neg hhigh, hindex]

/-- Only the bits of the prefix are compared. -/
theorem prefixMatches_of_getLsbD {value addressPrefix : BitVec 128} {bits : ℕ}
    (h : ∀ i, 128 - bits ≤ i → value.getLsbD i = addressPrefix.getLsbD i) :
    prefixMatches value addressPrefix bits = true := by
  rw [prefixMatches, beq_iff_eq]
  apply BitVec.eq_of_getLsbD_eq
  intro i hi
  rw [BitVec.getLsbD_and, BitVec.getLsbD_and]
  by_cases hlow : i < 128 - bits
  · have hmask : (BitVec.allOnes 128 <<< (128 - bits)).getLsbD i = false := by
      rw [BitVec.getLsbD_shiftLeft]
      simp [hlow]
    rw [hmask, Bool.and_false, Bool.and_false]
  · rw [h i (Nat.le_of_not_lt hlow)]

theorem blockedIpv6_mapped {address : BitVec 32} (h : blockedIpv4 address = true) :
    blockedIpv6 (ipv4Mapped address) = true := by
  have hsegments : ∀ i < 5, segment (ipv4Mapped address) i = 0 := by
    intro i hi
    rw [ipv4Mapped, segment_embed _ _ (by omega)]
    revert i
    decide
  have hlast : segment (ipv4Mapped address) 5 = 0xffff := by
    rw [ipv4Mapped, segment_embed _ _ (by omega)]
    decide
  have hlow : (ipv4Mapped address).extractLsb' 0 32 = address := extractLsb'_embed _ _
  have hall : (List.range 5).all (fun i => segment (ipv4Mapped address) i == 0) = true :=
    List.all_eq_true.mpr fun i hi => beq_iff_eq.mpr (hsegments i (List.mem_range.mp hi))
  rw [blockedIpv6, hall, hlast, hlow, h]
  rfl

theorem blockedIpv6_compatible {address : BitVec 32} (h : blockedIpv4 address = true) :
    blockedIpv6 (ipv4Compatible address) = true := by
  have hall : (List.range 6).all (fun i => segment (ipv4Compatible address) i == 0) = true := by
    refine List.all_eq_true.mpr fun i hi => beq_iff_eq.mpr ?_
    rw [ipv4Compatible, segment_embed _ _ (List.mem_range.mp hi)]
    exact BitVec.extractLsb'_zero
  have hlow : (ipv4Compatible address).extractLsb' 0 32 = address := extractLsb'_embed _ _
  simp only [blockedIpv6, hall, hlow, h, Bool.or_true, Bool.true_or, Bool.and_self]

/-- A translated address is blocked, whatever stands behind the prefix. -/
theorem blockedIpv6_nat64 (address : BitVec 32) : blockedIpv6 (nat64 address) = true := by
  have hprefix : prefixMatches (nat64 address) (nat64 0) 96 = true := by
    refine prefixMatches_of_getLsbD fun i hi => ?_
    have hhigh : ¬i < 32 := by omega
    rw [nat64, nat64, getLsbD_embed, getLsbD_embed, if_neg hhigh, if_neg hhigh]
  have hzero : nat64 0 = 0x0064ff9b000000000000000000000000 := by decide
  rw [hzero] at hprefix
  simp only [blockedIpv6, hprefix, Bool.or_true, Bool.true_or]

/-- An address behind the prefix for translators of the local network. -/
def nat64Local (suffix : BitVec 80) : BitVec 128 := (0x0064ff9b0001 : BitVec 48) ++ suffix

theorem blockedIpv6_nat64Local (suffix : BitVec 80) : blockedIpv6 (nat64Local suffix) = true := by
  have hget (suffix : BitVec 80) (i : ℕ) : (nat64Local suffix).getLsbD i =
      if i < 80 then suffix.getLsbD i else (0x0064ff9b0001 : BitVec 48).getLsbD (i - 80) :=
    BitVec.getLsbD_append
  have hprefix : prefixMatches (nat64Local suffix) (nat64Local 0) 48 = true := by
    refine prefixMatches_of_getLsbD fun i hi => ?_
    have hhigh : ¬i < 80 := by omega
    rw [hget, hget, if_neg hhigh, if_neg hhigh]
  have hzero : nat64Local 0 = 0x0064ff9b000100000000000000000000 := by decide
  rw [hzero] at hprefix
  simp only [blockedIpv6, hprefix, Bool.or_true, Bool.true_or]

end Rustodon.Remote
