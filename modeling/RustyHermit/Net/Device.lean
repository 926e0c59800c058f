import Mathlib.Data.List.Basic

/-!
# `NetworkInterface::new` (`device.rs`) and its netmask

The interface gets its address from constants of the build or, with the feature
`dhcpv4`, from DHCP. Both variants give up with `InitializationFailed` if the
kernel has no MTU or no MAC address to report, and both panic if smoltcp refuses
an address.

The variant with constants turns the netmask into a prefix length. It counts the
trailing ones of an octet and means the leading ones: the result is right for
255.255.255.0 but not for 255.255.240.0 (`prefixLen_short`). `prefixLen_iff` is
the exact condition.
-/

namespace RustyHermit.Net

/-- How a call can panic. -/
inductive Panic where
  /-- `unwrap` of an `Err` with this message -/
  | unwrap (err : String)
  /-- `lock().unwrap()` of a poisoned mutex -/
  | poisoned
  /-- `expect` with this message -/
  | expect (msg : String)
  /-- smoltcp takes unicast addresses only -/
  | notUnicast
  /-- `panic!("Invalid shutdown argument {}", how)` -/
  | shutdownArgument (how : Int32)
deriving DecidableEq, Repr

/-- What goes on has not panicked. -/
theorem Panic.bind_ok {α β : Type} {x : Except Panic α} {f : α → Except Panic β} {b : β}
    (h : x >>= f = .ok b) : ∃ a, x = .ok a ∧ f a = .ok b := by
  cases x with
  | error => cases h
  | ok a => exact ⟨a, rfl, h⟩

/-- `Ipv4Addr` and `Ipv4Address`: four octets. -/
structure Ipv4Addr where
  a : UInt8
  b : UInt8
  c : UInt8
  d : UInt8
deriving DecidableEq, Repr

namespace Ipv4Addr

def octets (ip : Ipv4Addr) : List UInt8 :=
  [ip.a, ip.b, ip.c, ip.d]

/-- `Ipv4Address::UNSPECIFIED` -/
def unspecified : Ipv4Addr := ⟨0, 0, 0, 0⟩

def isUnspecified (ip : Ipv4Addr) : Bool :=
  decide (ip = unspecified)

/-- Not multicast, broadcast or unspecified. -/
def isUnicast (ip : Ipv4Addr) : Bool :=
  !(ip.a &&& 0xf0 == 224 || decide (ip = ⟨255, 255, 255, 255⟩) || ip.isUnspecified)

/-- What smoltcp takes as the address of an interface. -/
def isAssignable (ip : Ipv4Addr) : Bool :=
  ip.isUnicast || ip.isUnspecified

end Ipv4Addr

/-- `Ipv4Cidr` -/
structure Ipv4Cidr where
  address : Ipv4Addr
  prefixLen : Nat
deriving DecidableEq, Repr

/-- What the code uses of `EthernetInterface`. -/
structure EthernetInterface where
  /-- `HermitNet::mtu` -/
  mtu : UInt16
  ethernetAddr : Vector UInt8 6
  ipAddrs : List Ipv4Cidr
  /-- the entry of the routes for `0.0.0.0/0`, the only one the code makes -/
  defaultIpv4Route : Option Ipv4Addr
deriving DecidableEq, Repr

/-- What `new` makes; `sockets` and `waker` are empty. -/
structure NetworkInterface where
  iface : EthernetInterface
  /-- with the feature `dhcpv4` only -/
  prevCidr : Option Ipv4Cidr
deriving DecidableEq, Repr

inductive NetworkState where
  | missing
  | initializationFailed
  | initialized (nic : NetworkInterface)
deriving DecidableEq, Repr

/-- `HERMIT_IP`, `HERMIT_GATEWAY` and `HERMIT_MASK` as they parse; `none` if one
does not. -/
structure Constants where
  ip : Option Ipv4Addr
  gateway : Option Ipv4Addr
  mask : Option Ipv4Addr

/-- The two variants of the interface. -/
inductive Build where
  | constants (c : Constants)
  /-- the feature `dhcpv4` -/
  | dhcpv4

/-! ## The prefix length -/

/-- `u8::trailing_zeros` -/
def trailingZeros (x : UInt8) : Nat :=
  x.toBitVec.ctz.toNat

/-- The netmask length as `new` calculates it. -/
def prefixLen (mymask : Ipv4Addr) : Nat :=
  let prefixLen := trailingZeros (~~~mymask.a)
  let prefixLen :=
    if prefixLen = 8 then prefixLen + trailingZeros (~~~mymask.b) else prefixLen
  let prefixLen :=
    if prefixLen = 16 then prefixLen + trailingZeros (~~~mymask.c) else prefixLen
  if prefixLen = 24 then prefixLen + trailingZeros (~~~mymask.d) else prefixLen

/-! ## `NetworkInterface::new` -/

/-- `.expect("Unable to parse IPv4 address")` -/
def expectParsed : Option Ipv4Addr → Except Panic Ipv4Addr
  | some ip => .ok ip
  | none => .error (.expect "Unable to parse IPv4 address")

/-- `EthernetInterfaceBuilder`: the MAC address must be unicast, each IP address
unicast or unspecified. -/
def finalize (iface : EthernetInterface) : Except Panic EthernetInterface :=
  if iface.ethernetAddr[0] &&& 1 ≠ 0 then .error .notUnicast
  else if iface.ipAddrs.all fun cidr => cidr.address.isAssignable then .ok iface
  else .error .notUnicast

/-- `NetworkInterface::new`, given what `sys_get_mtu` and `sys_get_mac_address`
return. -/
def NetworkInterface.new (build : Build) (mtu : Except Unit UInt16)
    (mac : Except Unit (Vector UInt8 6)) : Except Panic NetworkState :=
  match mtu, mac with
  | .error _, _ | .ok _, .error _ => .ok .initializationFailed
  | .ok mtu, .ok mac =>
    match build with
    | .dhcpv4 => do
      let cidr : Ipv4Cidr := ⟨.unspecified, 0⟩
      let iface ← finalize
        { mtu, ethernetAddr := mac, ipAddrs := [cidr], defaultIpv4Route := none }
      return .initialized { iface, prevCidr := some cidr }
    | .constants c => do
      let myip ← expectParsed c.ip
      let mygw ← expectParsed c.gateway
      let mymask ← expectParsed c.mask
      let iface ← finalize
        { mtu
          ethernetAddr := mac
          ipAddrs := [⟨myip, prefixLen mymask⟩]
          defaultIpv4Route := some mygw }
      return .initialized { iface, prevCidr := none }

theorem finalize_eq {iface iface' : EthernetInterface} (h : finalize iface = .ok iface') :
    iface' = iface := by
  unfold finalize at h
  split at h
  · cases h
  · split at h <;> cases h
    rfl

namespace NetworkInterface

variable {build : Build} {mtu : Except Unit UInt16} {mac : Except Unit (Vector UInt8 6)}

/-- Unless `new` returns `InitializationFailed`, the kernel has reported both an MTU
and a MAC address. -/
theorem reported (h : new build mtu mac ≠ .ok .initializationFailed) :
    ∃ mtu' mac', mtu = .ok mtu' ∧ mac = .ok mac' := by
  cases mtu with
  | error => exact absurd rfl h
  | ok mtu' =>
    cases mac with
    | error => exact absurd rfl h
    | ok mac' => exact ⟨mtu', mac', rfl, rfl⟩

/-- With both, it does not return that. -/
theorem initialized {mtu' : UInt16} {mac' : Vector UInt8 6} {state : NetworkState}
    (h : new build (.ok mtu') (.ok mac') = .ok state) :
    ∃ nic, state = .initialized nic := by
  cases build with
  | dhcpv4 =>
    obtain ⟨iface, -, hnic⟩ := Panic.bind_ok h
    cases hnic
    exact ⟨_, rfl⟩
  | constants c =>
    obtain ⟨myip, -, h⟩ := Panic.bind_ok h
    obtain ⟨mygw, -, h⟩ := Panic.bind_ok h
    obtain ⟨mymask, -, h⟩ := Panic.bind_ok h
    obtain ⟨iface, -, hnic⟩ := Panic.bind_ok h
    cases hnic
    exact ⟨_, rfl⟩

/-- If `new` returns, the network is up exactly if the kernel reported both. -/
theorem initialized_iff {state : NetworkState} (h : new build mtu mac = .ok state) :
    (∃ nic, state = .initialized nic) ↔ mtu.isOk = true ∧ mac.isOk = true := by
  constructor
  · rintro ⟨nic, rfl⟩
    have hne : new build mtu mac ≠ .ok .initializationFailed := by
      intro hfailed
      cases h.symm.trans hfailed
    obtain ⟨mtu', mac', rfl, rfl⟩ := reported hne
    exact ⟨rfl, rfl⟩
  · rintro ⟨hmtu, hmac⟩
    cases mtu with
    | error => cases hmtu
    | ok mtu' =>
      cases mac with
      | error => cases hmac
      | ok mac' => exact initialized h

/-- What `new` panics over comes after them. -/
theorem reported_of_panic {p : Panic} (h : new build mtu mac = .error p) :
    mtu.isOk = true ∧ mac.isOk = true := by
  have hne : new build mtu mac ≠ .ok .initializationFailed := by
    intro hfailed
    cases h.symm.trans hfailed
  obtain ⟨mtu', mac', rfl, rfl⟩ := reported hne
  exact ⟨rfl, rfl⟩

/-- What the variant for DHCP starts from. -/
theorem initialized_dhcpv4 {nic : NetworkInterface}
    (h : new .dhcpv4 mtu mac = .ok (.initialized nic)) :
    nic.iface.ipAddrs = [⟨.unspecified, 0⟩] ∧
      nic.iface.defaultIpv4Route = none ∧ nic.prevCidr = some ⟨.unspecified, 0⟩ := by
  have hne : new .dhcpv4 mtu mac ≠ .ok .initializationFailed := by
    intro hfailed
    cases h.symm.trans hfailed
  obtain ⟨mtu', mac', rfl, rfl⟩ := reported hne
  obtain ⟨iface, hiface, hnic⟩ := Panic.bind_ok h
  cases finalize_eq hiface
  cases hnic
  exact ⟨rfl, rfl, rfl⟩

end NetworkInterface

/-! ## What the prefix length should be -/

/-- The bits of an octet, the most significant one first. -/
def bits (x : UInt8) : List Bool :=
  (List.range 8).map x.toBitVec.getMsbD

/-- The number of contiguous 1 bits, starting at the most significant bit in the
first octet. -/
def contiguousOnes (mask : Ipv4Addr) : Nat :=
  ((mask.octets.flatMap bits).takeWhile id).length

def leadingOnes (x : UInt8) : Nat :=
  ((bits x).takeWhile id).length

def trailingOnes (x : UInt8) : Nat :=
  ((bits x).reverse.takeWhile id).length

/-- Counting octet by octet, and on after a full one: both lengths are this. -/
def countOctets (count : UInt8 → Nat) : List UInt8 → Nat
  | [] => 0
  | x :: xs => if count x = 8 then 8 + countOctets count xs else count x

/-- A way of counting that is full for the octet 255 and for no other. -/
structure CountsOctet (count : UInt8 → Nat) : Prop where
  le (x : UInt8) : count x ≤ 8
  full (x : UInt8) : count x = 8 ↔ x = 255

theorem length_bits (x : UInt8) : (bits x).length = 8 := by
  simp [bits]

theorem countsOctet_leadingOnes : CountsOctet leadingOnes where
  le x := by
    have hle : leadingOnes x ≤ (bits x).length := (List.takeWhile_prefix id).length_le
    rw [length_bits] at hle
    exact hle
  full x :=
    (by decide +kernel : ∀ x : BitVec 8, leadingOnes ⟨x⟩ = 8 ↔ (⟨x⟩ : UInt8) = 255) x.toBitVec

theorem countsOctet_trailingOnes : CountsOctet trailingOnes where
  le x := by
    have hle : trailingOnes x ≤ (bits x).reverse.length :=
      (List.takeWhile_prefix id).length_le
    rw [List.length_reverse, length_bits] at hle
    exact hle
  full x :=
    (by decide +kernel : ∀ x : BitVec 8, trailingOnes ⟨x⟩ = 8 ↔ (⟨x⟩ : UInt8) = 255) x.toBitVec

/-- The zeros at the low end of the complement are the ones at the low end. -/
theorem trailingZeros_compl (x : UInt8) : trailingZeros (~~~x) = trailingOnes x :=
  (by decide +kernel : ∀ x : BitVec 8, trailingZeros (~~~⟨x⟩) = trailingOnes ⟨x⟩) x.toBitVec

/-- The contiguous ones of several octets. -/
theorem length_takeWhile_bits (xs : List UInt8) :
    ((xs.flatMap bits).takeWhile id).length = countOctets leadingOnes xs := by
  induction xs with
  | nil => rfl
  | cons x xs ih =>
    rw [List.flatMap_cons, List.takeWhile_append, length_bits, countOctets]
    show (if leadingOnes x = 8 then _ else _ : List Bool).length = _
    by_cases hx : leadingOnes x = 8
    · rw [if_pos hx, if_pos hx, List.length_append, length_bits, ih]
    · rw [if_neg hx, if_neg hx]
      rfl

theorem contiguousOnes_eq (mask : Ipv4Addr) :
    contiguousOnes mask = countOctets leadingOnes mask.octets :=
  length_takeWhile_bits mask.octets

/-- The conditions at 8, 16 and 24 carry the count on after a full octet. -/
theorem prefixLen_eq (mask : Ipv4Addr) :
    prefixLen mask = countOctets trailingOnes mask.octets := by
  have ha := countsOctet_trailingOnes.le mask.a
  have hb := countsOctet_trailingOnes.le mask.b
  have hc := countsOctet_trailingOnes.le mask.c
  have hd := countsOctet_trailingOnes.le mask.d
  simp only [prefixLen, trailingZeros_compl, Ipv4Addr.octets, countOctets]
  split_ifs <;> omega

theorem countOctets_le {count : UInt8 → Nat} (h : CountsOctet count) (xs : List UInt8) :
    countOctets count xs ≤ 8 * xs.length := by
  induction xs with
  | nil => exact Nat.le_refl 0
  | cons x xs ih =>
    have hx := h.le x
    rw [countOctets, List.length_cons]
    split <;> omega

/-- At most 32: `prefix_len.try_into().unwrap()` does not panic, and `IpCidr::new` takes it. -/
theorem prefixLen_le (mask : Ipv4Addr) : prefixLen mask ≤ 32 := by
  rw [prefixLen_eq]
  exact countOctets_le countsOctet_trailingOnes mask.octets

/-- Two ways of counting agree if they agree on the first octet that is not full. -/
theorem countOctets_eq_iff {f g : UInt8 → Nat} (hf : CountsOctet f) (hg : CountsOctet g)
    (xs : List UInt8) : countOctets f xs = countOctets g xs ↔
      ∀ x, xs.find? (· ≠ 255) = some x → f x = g x := by
  induction xs with
  | nil => exact iff_of_true rfl nofun
  | cons x xs ih =>
    rw [countOctets, countOctets]
    by_cases hx : x = 255
    · rw [if_pos ((hf.full x).mpr hx), if_pos ((hg.full x).mpr hx),
        List.find?_cons_of_neg (by simp [hx]), ← ih]
      exact Nat.add_left_cancel_iff
    · rw [if_neg (mt (hf.full x).mp hx), if_neg (mt (hg.full x).mp hx),
        List.find?_cons_of_pos (by simp [hx])]
      exact ⟨fun h _ hsome => Option.some.inj hsome ▸ h, fun h => h x rfl⟩

/-! ## Exactly when it is -/

/-- The first octet other than 255, if there is one, has as many ones at its low
end as at its high end. -/
def EvenEnds (mask : Ipv4Addr) : Prop :=
  ∀ x, mask.octets.find? (· ≠ 255) = some x → trailingOnes x = leadingOnes x

/-- The mask of `p` ones and zeros after them. -/
def netmask (p : Nat) : Ipv4Addr :=
  let octet (n : Nat) : UInt8 := ~~~(255 >>> n.toUInt8)
  let ones (n : Nat) : UInt8 := if 8 ≤ n then 255 else octet n
  ⟨ones p, ones (p - 8), ones (p - 16), ones (p - 24)⟩

/-- 255.255.240.0 has 20 ones, and is taken for 16. -/
theorem prefixLen_short :
    ¬ ∀ mask : Ipv4Addr, prefixLen mask = contiguousOnes mask ∧ prefixLen mask ≤ 32 := by
  intro h
  have hlen := (h ⟨255, 255, 240, 0⟩).1
  exact absurd hlen (by decide)

/-- **Exactly when the prefix length is the length of the netmask**; of the masks
of ones followed by zeros, those that end with an octet. -/
theorem prefixLen_iff (mask : Ipv4Addr) :
    ((prefixLen mask = contiguousOnes mask ∧ prefixLen mask ≤ 32) ↔ EvenEnds mask) ∧
    ∀ p : Fin 33, contiguousOnes (netmask p) = p ∧
      (prefixLen (netmask p) = p ↔ 8 ∣ p.val) := by
  constructor
  · rw [and_iff_left (prefixLen_le mask), prefixLen_eq, contiguousOnes_eq]
    exact countOctets_eq_iff countsOctet_trailingOnes countsOctet_leadingOnes mask.octets
  · decide

end RustyHermit.Net
