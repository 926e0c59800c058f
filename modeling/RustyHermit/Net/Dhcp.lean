import RustyHermit.Lib.Machine
import RustyHermit.Net.Device

/-!
# DHCP in `poll_common`

With the feature `dhcpv4`, `poll_common` hands what the DHCP client reports to
the interface. An address replaces the one of the interface, unless it is
unspecified or the one that was assigned last. A router replaces the default
route, whether an address came with it or not; and nothing removes a route.

So the address is the last one reported and the route the last router reported,
each on its own (`address_and_route`). They need not come from one
configuration (`route_of_earlier_lease`).
-/

namespace RustyHermit.Net

/-- `smoltcp::dhcp::Dhcpv4Config`; its DNS servers are only printed. -/
structure DhcpConfig where
  address : Option Ipv4Cidr
  router : Option Ipv4Addr
deriving DecidableEq, Repr

/-- The leased address, unless that is 0.0.0.0. -/
def DhcpConfig.leased (config : DhcpConfig) : Option Ipv4Cidr :=
  match config.address with
  | some cidr => if cidr.address.isUnspecified then none else some cidr
  | none => none

/-- smoltcp takes its address. -/
def DhcpConfig.Assignable (config : DhcpConfig) : Prop :=
  ∀ cidr, config.address = some cidr → cidr.address.isAssignable = true

namespace NetworkInterface

/-- `addrs.iter_mut().next().map(|addr| { *addr = .. })` -/
def setFirst (cidr : Ipv4Cidr) : List Ipv4Cidr → List Ipv4Cidr
  | [] => []
  | _ :: addrs => cidr :: addrs

/-- `update_ip_addrs`; it panics if smoltcp cannot take an address. -/
def updateIpAddrs (iface : EthernetInterface) (cidr : Ipv4Cidr) :
    Except Panic EthernetInterface :=
  let ipAddrs := setFirst cidr iface.ipAddrs
  if ipAddrs.all fun cidr => cidr.address.isAssignable then .ok { iface with ipAddrs }
  else .error .notUnicast

/-- `if let Some(cidr) = config.address { .. }` -/
def assignAddress (nic : NetworkInterface) (config : DhcpConfig) :
    Except Panic NetworkInterface :=
  match config.address with
  | none => .ok nic
  | some cidr =>
    if some cidr ≠ nic.prevCidr ∧ cidr.address.isUnspecified = false then do
      let iface ← updateIpAddrs nic.iface cidr
      return { iface, prevCidr := some cidr }
    else .ok nic

/-- `config.router.map(|router| ..add_default_ipv4_route(router))` -/
def addRoute (nic : NetworkInterface) (config : DhcpConfig) : NetworkInterface :=
  match config.router with
  | none => nic
  | some router => { nic with iface.defaultIpv4Route := some router }

/-- What `poll_common` does with a configuration. -/
def handleConfig (nic : NetworkInterface) (config : DhcpConfig) :
    Except Panic NetworkInterface := do
  let nic ← nic.assignAddress config
  return nic.addRoute config

/-- All sequences of configurations, each of which is handled without a panic. -/
def dhcp : Machine NetworkInterface DhcpConfig where
  init nic := ∃ mtu mac, NetworkInterface.new .dhcpv4 mtu mac = .ok (.initialized nic)
  next nic config := (nic.handleConfig config).toOption

/-! ## What has been reported -/

/-- The last address reported, 0.0.0.0/0 if there was none. -/
def lastAddress (configs : List DhcpConfig) : Ipv4Cidr :=
  (configs.filterMap DhcpConfig.leased).getLast?.getD ⟨.unspecified, 0⟩

/-- The last router reported. -/
def lastRouter (configs : List DhcpConfig) : Option Ipv4Addr :=
  (configs.filterMap DhcpConfig.router).getLast?

/-- The router of the last configuration that reported an address. -/
def leaseRouter (configs : List DhcpConfig) : Option Ipv4Addr :=
  (configs.filter fun config => config.leased.isSome).getLast?.bind DhcpConfig.router

/-- An interface that has just been set up. -/
def booted : NetworkInterface :=
  { iface :=
      { mtu := 1500
        ethernetAddr := #v[2, 0, 0, 0, 0, 1]
        ipAddrs := [⟨.unspecified, 0⟩]
        defaultIpv4Route := none }
    prevCidr := some ⟨.unspecified, 0⟩ }

theorem init_booted : dhcp.init booted :=
  ⟨.ok 1500, .ok #v[2, 0, 0, 0, 0, 1], rfl⟩

/-- A lease with a router, and then another one without. -/
def twoLeases : List DhcpConfig :=
  [⟨some ⟨⟨10, 0, 5, 3⟩, 24⟩, some ⟨10, 0, 5, 1⟩⟩,
    ⟨some ⟨⟨192, 168, 0, 7⟩, 24⟩, none⟩]

/-- The address of the second lease, with the router of the first one. -/
theorem route_of_earlier_lease :
    ¬ ∀ (nic nic' : NetworkInterface) (configs : List DhcpConfig),
      dhcp.init nic → dhcp.run nic configs = some nic' →
        nic'.prevCidr = some (lastAddress configs) ∧
        nic'.iface.ipAddrs = [lastAddress configs] ∧
        nic'.iface.defaultIpv4Route = leaseRouter configs := by
  intro h
  have hroute := (h booted _ twoLeases init_booted rfl).2.2
  exact absurd hroute (by decide)

/-! ## What is in effect -/

/-- The interface is set to the last address and the last router of `configs`. -/
structure Follows (nic : NetworkInterface) (configs : List DhcpConfig) : Prop where
  prevCidr : nic.prevCidr = some (lastAddress configs)
  ipAddrs : nic.iface.ipAddrs = [lastAddress configs]
  route : nic.iface.defaultIpv4Route = lastRouter configs

theorem lastAddress_snoc (configs : List DhcpConfig) (config : DhcpConfig) :
    lastAddress (configs ++ [config]) = config.leased.getD (lastAddress configs) := by
  unfold lastAddress
  rw [List.filterMap_append, List.getLast?_append]
  cases h : config.leased <;> simp [h]

theorem lastRouter_snoc (configs : List DhcpConfig) (config : DhcpConfig) :
    lastRouter (configs ++ [config]) = config.router.or (lastRouter configs) := by
  unfold lastRouter
  rw [List.filterMap_append, List.getLast?_append]
  cases h : config.router <;> simp [h]

/-- Before the first configuration. -/
theorem follows_init {nic : NetworkInterface} (h : dhcp.init nic) : nic.Follows [] := by
  obtain ⟨mtu, mac, hnew⟩ := h
  obtain ⟨haddrs, hroute, hprev⟩ := initialized_dhcpv4 hnew
  exact ⟨hprev, haddrs, hroute⟩

theorem updateIpAddrs_eq {iface iface' : EthernetInterface} {cidr : Ipv4Cidr}
    (h : updateIpAddrs iface cidr = .ok iface') :
    iface' = { iface with ipAddrs := setFirst cidr iface.ipAddrs } := by
  unfold updateIpAddrs at h
  simp only at h
  split at h <;> cases h
  rfl

/-- The address that is in effect is reported again, or a new one takes its
place; the route stays. -/
theorem Follows.assignAddress {nic nic' : NetworkInterface} {configs : List DhcpConfig}
    {config : DhcpConfig} (h : nic.Follows configs)
    (hok : nic.assignAddress config = .ok nic') :
    nic'.prevCidr = some (lastAddress (configs ++ [config])) ∧
      nic'.iface.ipAddrs = [lastAddress (configs ++ [config])] ∧
      nic'.iface.defaultIpv4Route = nic.iface.defaultIpv4Route := by
  rw [lastAddress_snoc]
  unfold NetworkInterface.assignAddress at hok
  split at hok
  · rename_i hnone
    cases hok
    rw [show config.leased = none by simp [DhcpConfig.leased, hnone]]
    exact ⟨h.prevCidr, h.ipAddrs, rfl⟩
  · rename_i cidr hsome
    split at hok
    · rename_i hnew
      rw [show config.leased = some cidr by simp [DhcpConfig.leased, hsome, hnew.2]]
      obtain ⟨iface, hiface, hnic⟩ := Panic.bind_ok hok
      cases hnic
      rw [updateIpAddrs_eq hiface, h.ipAddrs]
      exact ⟨rfl, rfl, rfl⟩
    · rename_i hold
      cases hok
      suffices config.leased.getD (lastAddress configs) = lastAddress configs by
        rw [this]
        exact ⟨h.prevCidr, h.ipAddrs, rfl⟩
      by_cases hu : cidr.address.isUnspecified = true
      · simp [DhcpConfig.leased, hsome, hu]
      · -- the shortcut: this address is the last one already
        rw [h.prevCidr] at hold
        have heq : cidr = lastAddress configs := by
          by_contra hne
          exact hold ⟨fun hs => hne (Option.some.inj hs), by simpa using hu⟩
        subst heq
        simp [DhcpConfig.leased, hsome, hu]

/-- Handling a configuration. -/
theorem Follows.next {nic nic' : NetworkInterface} {configs : List DhcpConfig}
    {config : DhcpConfig} (h : nic.Follows configs)
    (hnext : dhcp.next nic config = some nic') : nic'.Follows (configs ++ [config]) := by
  have hok : nic.handleConfig config = .ok nic' := by
    change (nic.handleConfig config).toOption = some nic' at hnext
    cases hres : nic.handleConfig config with
    | error => rw [hres] at hnext; cases hnext
    | ok nic₁ =>
      rw [hres] at hnext
      cases hnext
      rfl
  obtain ⟨nic₁, haddr, hroute⟩ := Panic.bind_ok hok
  cases hroute
  obtain ⟨hprev, haddrs, hkept⟩ := h.assignAddress haddr
  have hlast := lastRouter_snoc configs config
  unfold addRoute
  cases hr : config.router with
  | none =>
    rw [hr] at hlast
    exact ⟨hprev, haddrs, hkept.trans (h.route.trans hlast.symm)⟩
  | some router =>
    rw [hr] at hlast
    exact ⟨hprev, haddrs, hlast.symm⟩

/-- Handling one configuration after the other. -/
theorem Follows.run {nic nic' : NetworkInterface} {done configs : List DhcpConfig}
    (h : nic.Follows done) (hrun : dhcp.run nic configs = some nic') :
    nic'.Follows (done ++ configs) := by
  induction configs generalizing nic done with
  | nil =>
    cases hrun
    rw [List.append_nil]
    exact h
  | cons config configs ih =>
    obtain ⟨nic₁, hnext, hrest⟩ := Option.bind_eq_some_iff.mp hrun
    rw [← List.singleton_append, ← List.append_assoc]
    exact ih (h.next hnext) hrest

/-- An address that smoltcp takes is handled without a panic. -/
theorem Follows.handled {nic : NetworkInterface} {configs : List DhcpConfig}
    {config : DhcpConfig} (h : nic.Follows configs) (hconfig : config.Assignable) :
    ∃ nic', dhcp.next nic config = some nic' := by
  suffices ∃ nic', nic.assignAddress config = .ok nic' by
    obtain ⟨nic', hnic'⟩ := this
    refine ⟨nic'.addRoute config, ?_⟩
    show (nic.assignAddress config >>= _).toOption = _
    rw [hnic']
    rfl
  unfold NetworkInterface.assignAddress
  cases hsome : config.address with
  | none => exact ⟨nic, rfl⟩
  | some cidr =>
    have hok : updateIpAddrs nic.iface cidr = .ok { nic.iface with ipAddrs := [cidr] } := by
      simp [updateIpAddrs, setFirst, h.ipAddrs, hconfig cidr hsome]
    simp only [hok]
    split
    · exact ⟨_, rfl⟩
    · exact ⟨nic, rfl⟩

theorem Follows.run_isSome {nic : NetworkInterface} {done configs : List DhcpConfig}
    (h : nic.Follows done) (hconfigs : ∀ config ∈ configs, config.Assignable) :
    (dhcp.run nic configs).isSome = true := by
  induction configs generalizing nic done with
  | nil => rfl
  | cons config configs ih =>
    obtain ⟨nic₁, hnext⟩ := h.handled (hconfigs config List.mem_cons_self)
    show ((dhcp.next nic config).bind _).isSome = true
    rw [hnext]
    exact ih (h.next hnext) fun c hc => hconfigs c (List.mem_cons_of_mem config hc)

/-- **Address and route**: any configurations that smoltcp takes are handled;
after them the interface and `prev_cidr` have the last address that was reported,
and the default route is the last router that was reported, each from whatever
configuration had one. -/
theorem address_and_route {nic : NetworkInterface} (hinit : dhcp.init nic)
    (configs : List DhcpConfig) :
    ((∀ config ∈ configs, config.Assignable) → (dhcp.run nic configs).isSome = true) ∧
    ∀ nic', dhcp.run nic configs = some nic' →
      nic'.prevCidr = some (lastAddress configs) ∧
      nic'.iface.ipAddrs = [lastAddress configs] ∧
      nic'.iface.defaultIpv4Route = lastRouter configs := by
  refine ⟨(follows_init hinit).run_isSome, fun nic' hrun => ?_⟩
  have h := (follows_init hinit).run hrun
  exact ⟨h.prevCidr, h.ipAddrs, h.route⟩

/-- The two leases again. -/
theorem address_and_route_of_two_leases : ∃ nic nic' : NetworkInterface,
    dhcp.init nic ∧ dhcp.run nic twoLeases = some nic' ∧
      nic'.prevCidr = some (lastAddress twoLeases) ∧
      nic'.iface.ipAddrs = [lastAddress twoLeases] ∧
      nic'.iface.defaultIpv4Route = lastRouter twoLeases := by
  exact ⟨booted, _, init_booted, rfl, (address_and_route init_booted twoLeases).2 _ rfl⟩

end NetworkInterface

end RustyHermit.Net
