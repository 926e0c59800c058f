import RustyHermit.Net.Device
import RustyHermit.Net.Nic

/-!
# The start of the network, and calls without one

`network_init` fills `NIC` once; if the kernel reports no MTU or no MAC address,
it leaves `InitializationFailed` there and returns `Ok(())` all the same. Every
system call then finds out by itself, in its first critical section, and most of
them by an `unwrap` under the lock. Such a panic unwinds the caller and poisons
the mutex for all later calls.

Without a network a call ends in its first critical section, so calls of several
threads are a sequence of such sections.

`missing_network_iff` says for which outcomes and for which calls a missing
network is reported, and `missing_network_unreported` shows both go wrong.
-/

namespace RustyHermit.Net

/-- `Mutex<NetworkState>` -/
structure Mutex where
  state : NetworkState
  poisoned : Bool
deriving DecidableEq

/-- The statics of the module. -/
structure Statics where
  /-- `NIC` -/
  nic : Mutex
  /-- `LOCAL_ENDPOINT` -/
  localEndpoint : UInt16

namespace Mutex

/-- `lock().unwrap()`, and `f` while the guard is held. A panic drops the guard
and poisons the mutex. -/
def locked {α : Type} (m : Mutex) (f : NetworkState → Except Panic α × NetworkState) :
    Except Panic α × Mutex :=
  if m.poisoned then (.error .poisoned, m)
  else
    match f m.state with
    | (.ok a, state) => (.ok a, { m with state })
    | (.error p, state) => (.error p, { state, poisoned := true })

theorem locked_ok {α : Type} {m : Mutex} {f : NetworkState → Except Panic α × NetworkState}
    {a : α} {state : NetworkState} (hm : m.poisoned = false)
    (hf : f m.state = (.ok a, state)) : m.locked f = (.ok a, { m with state }) := by
  unfold locked
  rw [if_neg (by rw [hm]; decide), hf]

theorem locked_panic {α : Type} {m : Mutex} {f : NetworkState → Except Panic α × NetworkState}
    {p : Panic} {state : NetworkState} (hm : m.poisoned = false)
    (hf : f m.state = (.error p, state)) :
    m.locked f = (.error p, { state, poisoned := true }) := by
  unfold locked
  rw [if_neg (by rw [hm]; decide), hf]

/-- The network is not there, and nobody has panicked. -/
def Absent (m : Mutex) : Prop :=
  m.poisoned = false ∧ ∀ nic, m.state ≠ .initialized nic

end Mutex

/-! ## `network_init` -/

/-- The first local port: the time stamp counter modulo `u16::MAX`. -/
def startEndpoint (rdtsc : UInt64) : UInt16 :=
  (rdtsc % 65535).toUInt16

namespace Statics

/-- Before `network_init`. -/
def boot : Statics :=
  { nic := { state := .missing, poisoned := false }, localEndpoint := 0 }

/-- `network_init`. What it does with an initialized interface, the first poll and
the network task, is `Scheduler.networkInit`. -/
def networkInit (s : Statics) (rdtsc : UInt64) (build : Build) (mtu : Except Unit UInt16)
    (mac : Except Unit (Vector UInt8 6)) : Except Panic (Except Unit Unit) × Statics :=
  let s := { s with localEndpoint := startEndpoint rdtsc }
  let (res, nic) := s.nic.locked fun state =>
    match NetworkInterface.new build mtu mac with
    | .ok state => (.ok (.ok ()), state)
    | .error p => (.error p, state)
  (res, { s with nic })

/-- `sys_network_init`, once the logger is set. -/
def sysNetworkInit (s : Statics) (rdtsc : UInt64) (build : Build)
    (mtu : Except Unit UInt16) (mac : Except Unit (Vector UInt8 6)) :
    Except Panic Int32 × Statics :=
  let (res, s) := s.networkInit rdtsc build mtu mac
  (res.map fun ret => if ret.isOk then 0 else -1, s)

end Statics

/-! ## The first critical section of a call -/

/-- `NetworkState::as_nic_mut` -/
def NetworkState.asNicMut : NetworkState → Except String NetworkInterface
  | .initialized nic => .ok nic
  | _ => .error "Network is not initialized!"

/-- Where the first critical section leaves a call. -/
inductive Outcome where
  | ret (res : Except Unit Unit)
  /-- it has got the interface, and goes on as a call of `Nic` -/
  | network
deriving DecidableEq

/-- The calls on TCP sockets. -/
inductive TcpCall where
  | syscall (call : Syscall)
  /-- `sys_tcp_stream_peer_addr` -/
  | peerAddr (handle : Handle)

namespace Mutex

/-- `NIC.lock().unwrap().as_nic_mut().unwrap()`, in `AsyncSocket::new` and in
`AsyncSocket::with`. -/
def unwrapNic (m : Mutex) : Except Panic Outcome × Mutex :=
  m.locked fun state =>
    match state.asNicMut with
    | .ok _ => (.ok .network, state)
    | .error e => (.error (.unwrap e), state)

/-- `guard.as_nic_mut().map_err(drop)?` -/
def sysTcpStreamPeerAddr (m : Mutex) : Except Panic Outcome × Mutex :=
  m.locked fun state =>
    match state.asNicMut with
    | .ok _ => (.ok .network, state)
    | .error _ => (.ok (.ret (.error ())), state)

/-- `match how { .. }` -/
def sysTcpStreamShutdown (m : Mutex) (how : Int32) : Except Panic Outcome × Mutex :=
  if how = 0 then (.ok (.ret (.ok ())), m)
  else if how = 1 ∨ how = 2 then m.unwrapNic
  else (.error (.shutdownArgument how), m)

/-- A call, up to the end of its first critical section. -/
def call (m : Mutex) : TcpCall → Except Panic Outcome × Mutex
  | .syscall (.streamConnect ..) | .syscall (.listenerAccept _) => m.unwrapNic
  | .syscall (.streamRead ..) | .syscall (.streamWrite ..) | .syscall (.streamClose _) =>
    m.unwrapNic
  | .syscall (.streamShutdown _ how) => m.sysTcpStreamShutdown how
  | .peerAddr _ => m.sysTcpStreamPeerAddr

/-- Calls of any threads, in the order in which they lock `NIC`. -/
def calls (m : Mutex) : List TcpCall → List (Except Panic Outcome) × Mutex
  | [] => ([], m)
  | c :: cs =>
    let (res, m) := m.call c
    let (ress, m) := m.calls cs
    (res :: ress, m)

end Mutex

/-! ## What should come of it -/

namespace Statics

/-- `sys_network_init` returns 0 if the network is up, and only then. One that panics,
as with a multicast MAC address, returns nothing and leaves no network: it is truthful,
and no error is reported. -/
def Truthful (rdtsc : UInt64) (build : Build) (mtu : Except Unit UInt16)
    (mac : Except Unit (Vector UInt8 6)) : Prop :=
  (boot.sysNetworkInit rdtsc build mtu mac).1 = .ok 0 ↔
    ∃ nic, (boot.sysNetworkInit rdtsc build mtu mac).2.nic.state = .initialized nic

end Statics

namespace Mutex

/-- As in the build without a network (`dummy.rs`): the call is refused, and
`sys_tcp_stream_shutdown` returns. -/
def Refused : TcpCall → Except Panic Outcome → Prop
  | .syscall (.streamShutdown ..), res => ∃ r, res = .ok (.ret r)
  | _, res => res = .ok (.ret (.error ()))

/-- All calls are refused, and the network is left alone. -/
def AllRefused (m : Mutex) (cs : List TcpCall) : Prop :=
  List.Forall₂ Refused cs (m.calls cs).1 ∧ (m.calls cs).2 = m

/-- The calls that expect a missing network. -/
def expectsAbsence : TcpCall → Bool
  | .peerAddr _ => true
  | .syscall (.streamShutdown _ how) => decide (how = 0)
  | _ => false

end Mutex

/-- Without an MTU, `sys_network_init` returns 0 nevertheless; then the first read
panics and poisons the mutex. -/
theorem missing_network_unreported :
    (¬ ∀ rdtsc build mtu mac, Statics.Truthful rdtsc build mtu mac) ∧
    ¬ ∀ m : Mutex, m.Absent → ∀ cs : List TcpCall, m.AllRefused cs := by
  constructor
  · intro h
    obtain ⟨nic, hnic⟩ := (h 0 .dhcpv4 (.error ()) (.error ())).mp rfl
    cases hnic
  · intro h
    have habsent : Mutex.Absent { state := .initializationFailed, poisoned := false } :=
      ⟨rfl, nofun⟩
    have hsame := (h _ habsent [.syscall (.streamRead 0 0)]).2
    exact absurd hsame (by decide)

namespace Mutex

theorem Absent.asNicMut {m : Mutex} (h : m.Absent) :
    m.state.asNicMut = .error "Network is not initialized!" := by
  cases hs : m.state with
  | initialized nic => exact absurd hs (h.2 nic)
  | missing | initializationFailed => rfl

/-- The `unwrap` panics, and poisons the mutex. -/
theorem Absent.unwrapNic {m : Mutex} (h : m.Absent) :
    m.unwrapNic = (.error (.unwrap "Network is not initialized!"),
      { m with poisoned := true }) := by
  refine locked_panic h.1 ?_
  rw [h.asNicMut]

/-- `sys_tcp_stream_peer_addr` hands the error on. -/
theorem Absent.peerAddr {m : Mutex} (h : m.Absent) :
    m.sysTcpStreamPeerAddr = (.ok (.ret (.error ())), m) := by
  refine locked_ok h.1 ?_
  rw [h.asNicMut]

theorem not_refused_panic (c : TcpCall) (p : Panic) : ¬ Refused c (.error p) := by
  intro h
  unfold Refused at h
  split at h
  · obtain ⟨r, hr⟩ := h
    cases hr
  · cases h

/-- The call is refused if it expects this. -/
theorem Absent.refused_iff {m : Mutex} (h : m.Absent) (c : TcpCall) :
    Refused c (m.call c).1 ↔ expectsAbsence c = true := by
  have hunwrap : ¬ Refused c m.unwrapNic.1 := by
    rw [h.unwrapNic]
    exact not_refused_panic c _
  cases c with
  | peerAddr handle =>
    refine iff_of_true ?_ rfl
    show m.sysTcpStreamPeerAddr.1 = _
    rw [h.peerAddr]
  | syscall call =>
    cases call with
    | streamShutdown handle how =>
      show (∃ r, (m.sysTcpStreamShutdown how).1 = .ok (.ret r)) ↔ decide (how = 0) = true
      rw [decide_eq_true_iff]
      unfold sysTcpStreamShutdown
      by_cases h0 : how = 0
      · rw [if_pos h0]
        exact iff_of_true ⟨_, rfl⟩ h0
      · rw [if_neg h0]
        refine iff_of_false ?_ h0
        rintro ⟨r, hr⟩
        split at hr
        · exact hunwrap ⟨r, hr⟩
        · cases hr
    | streamConnect | listenerAccept | streamRead | streamWrite | streamClose =>
      exact iff_of_false hunwrap nofun

/-- A call that expects a missing network leaves it alone. -/
theorem Absent.call_same {m : Mutex} (h : m.Absent) {c : TcpCall}
    (hc : expectsAbsence c = true) : (m.call c).2 = m := by
  cases c with
  | peerAddr handle => exact congrArg Prod.snd h.peerAddr
  | syscall call =>
    cases call with
    | streamShutdown handle how =>
      show (m.sysTcpStreamShutdown how).2 = m
      unfold sysTcpStreamShutdown
      rw [if_pos (of_decide_eq_true hc)]
    | streamConnect | listenerAccept | streamRead | streamWrite | streamClose => cases hc

/-- A sequence of calls. -/
theorem Absent.allRefused_iff {m : Mutex} (h : m.Absent) (cs : List TcpCall) :
    m.AllRefused cs ↔ ∀ c ∈ cs, expectsAbsence c = true := by
  induction cs with
  | nil => exact iff_of_true ⟨.nil, rfl⟩ nofun
  | cons c cs ih =>
    rw [List.forall_mem_cons, ← ih, ← h.refused_iff c]
    have hcalls : m.calls (c :: cs) =
        ((m.call c).1 :: ((m.call c).2.calls cs).1, ((m.call c).2.calls cs).2) := rfl
    unfold AllRefused
    rw [hcalls, List.forall₂_cons]
    constructor
    · rintro ⟨⟨hc, hcs⟩, hsame⟩
      rw [h.call_same ((h.refused_iff c).mp hc)] at hcs hsame
      exact ⟨hc, hcs, hsame⟩
    · rintro ⟨hc, hcs, hsame⟩
      rw [h.call_same ((h.refused_iff c).mp hc)]
      exact ⟨⟨hc, hcs⟩, hsame⟩

end Mutex

/-! ## Exactly when a missing network is reported -/

/-- Without an MTU or a MAC address it returns 0, and the network is not up. -/
theorem Statics.truthful_iff (rdtsc : UInt64) (build : Build) (mtu : Except Unit UInt16)
    (mac : Except Unit (Vector UInt8 6)) :
    Truthful rdtsc build mtu mac ↔ mtu.isOk = true ∧ mac.isOk = true := by
  cases hnew : NetworkInterface.new build mtu mac with
  | error p =>
    -- a panic: nothing is returned, and nothing is stored
    have hinit : boot.sysNetworkInit rdtsc build mtu mac =
        (.error p, ⟨⟨.missing, true⟩, startEndpoint rdtsc⟩) := by
      simp [sysNetworkInit, networkInit, boot, Mutex.locked, hnew, Except.map]
    unfold Truthful
    rw [hinit]
    refine iff_of_true (iff_of_false nofun ?_) (NetworkInterface.reported_of_panic hnew)
    rintro ⟨nic, hnic⟩
    cases hnic
  | ok state =>
    have hinit : boot.sysNetworkInit rdtsc build mtu mac =
        (.ok 0, ⟨⟨state, false⟩, startEndpoint rdtsc⟩) := by
      simp [sysNetworkInit, networkInit, boot, Mutex.locked, hnew, Except.map, Except.isOk,
        Except.toBool]
    unfold Truthful
    rw [hinit, NetworkInterface.initialized_iff hnew]
    exact iff_true_left rfl

/-- **Exactly when a missing network is reported**: `sys_network_init` tells the
truth, or panics, if the kernel has an MTU and a MAC address to report; and of the system
calls, `sys_tcp_stream_peer_addr` and `sys_tcp_stream_shutdown` for reading are
those that return without a panic. -/
theorem missing_network_iff (rdtsc : UInt64) (build : Build) (mtu : Except Unit UInt16)
    (mac : Except Unit (Vector UInt8 6)) {m : Mutex} (h : m.Absent) (cs : List TcpCall) :
    (Statics.Truthful rdtsc build mtu mac ↔ mtu.isOk = true ∧ mac.isOk = true) ∧
    (m.AllRefused cs ↔ ∀ c ∈ cs, Mutex.expectsAbsence c = true) :=
  ⟨Statics.truthful_iff rdtsc build mtu mac, h.allRefused_iff cs⟩

/-- A network that could not be set up, and a call for the address of a peer. -/
theorem missing_network_reported :
    (Mutex.mk .initializationFailed false).AllRefused [.peerAddr 0] := by
  have habsent : Mutex.Absent { state := .initializationFailed, poisoned := false } :=
    ⟨rfl, nofun⟩
  exact (missing_network_iff 0 .dhcpv4 (.error ()) (.error ()) habsent
    [.peerAddr 0]).2.mpr (by decide)

end RustyHermit.Net
