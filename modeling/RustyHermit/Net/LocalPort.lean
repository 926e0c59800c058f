import RustyHermit.Net.Startup
import RustyHermit.Smoltcp.Reference

/-!
# The local ports of `connect`

`network_init` sets `LOCAL_ENDPOINT` to a number below 65535, and every `connect`
takes the number that is there and leaves the next one, modulo 65536. The number
is the local port of the connection, whether it is a port at all and whether or
not another connection to the same remote endpoint has it.

The machine is that of the whole network from the end of `network_init` on. It
remembers how often a port has been taken, and from whom each socket has its
local port. `port_usable_iff` says for every `connect` of every run when its port
can be used. Port 0 comes up once in 65536 calls, for one start value with the
first (`first_port_zero`).
-/

namespace RustyHermit.Net

open RustyHermit.Smoltcp RustyHermit.Executor

/-! ## The counter -/

/-- The number that is taken after `n` others. -/
theorem toNat_add_ofNat (start : UInt16) (n : Nat) :
    (start + UInt16.ofNat n).toNat = (start.toNat + n) % 65536 := by
  rw [UInt16.toNat_add]
  simp

/-- Two calls take the same number if a multiple of 65536 calls lies between. -/
theorem add_ofNat_eq_iff (start : UInt16) (m n : Nat) :
    start + UInt16.ofNat m = start + UInt16.ofNat n ↔ m % 65536 = n % 65536 := by
  rw [← UInt16.toNat_inj, toNat_add_ofNat, toNat_add_ofNat]
  omega

/-- One call in 65536 takes 0. -/
theorem add_ofNat_eq_zero_iff (start : UInt16) (n : Nat) :
    start + UInt16.ofNat n = 0 ↔ 65536 ∣ start.toNat + n := by
  rw [← UInt16.toNat_inj, toNat_add_ofNat]
  exact (Nat.dvd_iff_mod_eq_zero ..).symm

/-! ## The machine -/

/-- Who gave a socket its local port. -/
inductive Origin where
  /-- the call number `m`, from 0, of those that took a port -/
  | connect (m : Nat)
  | accept
deriving DecidableEq

/-- How a socket was opened. -/
structure Binding where
  /-- the local port that `TcpSocket::connect` or `listen` was given -/
  port : UInt16
  origin : Origin
deriving DecidableEq

/-- The network, and where the local ports come from. -/
structure Ports {W : Type} (tcp : SmolTcp W) (ι : Type) where
  nic : Nic tcp ι
  /-- ghost: how many ports `connect` has taken -/
  taken : Nat
  /-- ghost: how each socket was opened the last time -/
  binding : Handle → Option Binding

namespace Ports

variable {W : Type} {tcp : SmolTcp W} {ι : Type}

/-- The critical section opens the socket. -/
def bindingOf (s : Ports tcp ι) : Future → Progress → Option Binding
  | .connect _ _, .next _ => some ⟨s.nic.localEndpoint, .connect s.taken⟩
  | .accept port, .next _ => some ⟨port, .accept⟩
  | _, _ => none

/-- The next critical section of thread `i`: its socket, the future, how it goes on. -/
def nextSection (n : Nic tcp ι) (i : ι) (cx : W) : Option (Handle × Future × Progress) :=
  (n.frames i).bind fun f => (n.conns f.handle).bind fun c => (c.calls i).map fun fut =>
    (f.handle, fut, (c.step fut cx n.localEndpoint).1)

/-- The section has opened the socket `h`, if it gave it a port. -/
def bind (binding : Handle → Option Binding) (h : Handle) :
    Option Binding → Handle → Option Binding
  | none => binding
  | some o => Function.update binding h (some o)

variable [DecidableEq ι]

/-- What the ghosts remember of a step. -/
def remember (s : Ports tcp ι) (nic : Nic tcp ι) : Nic.Label W ι → Ports tcp ι
  | .section i cx =>
    match nextSection s.nic i cx with
    | none => { s with nic }
    | some (h, fut, progress) =>
      { nic
        taken := if Nic.takesPort tcp fut then s.taken + 1 else s.taken
        binding := bind s.binding h (s.bindingOf fut progress) }
  | _ => { s with nic }

/-- One step of the network. -/
def next (s : Ports tcp ι) (l : Nic.Label W ι) : Option (Ports tcp ι) :=
  (s.nic.next l).map fun nic => s.remember nic l

omit [DecidableEq ι] in
/-- The end of `network_init`. -/
def networkInit (tcp : SmolTcp W) (ι : Type) (rdtsc : UInt64) : Ports tcp ι :=
  { nic := .networkInit tcp ι (startEndpoint rdtsc)
    taken := 0
    binding := fun _ => none }

/-- All runs after a boot at the time stamp `rdtsc`. -/
def machine (tcp : SmolTcp W) (ι : Type) [DecidableEq ι] (rdtsc : UInt64) :
    Machine (Ports tcp ι) (Nic.Label W ι) where
  init s := s = networkInit tcp ι rdtsc
  next := next

/-! ## What should hold -/

omit [DecidableEq ι] in
/-- Thread `i` is about to connect its socket `c` to `remote`. -/
structure Connects (s : Ports tcp ι) (i : ι) (f : Frame) (c : Conn tcp ι) (ip : ByteArray)
    (remote : IpEndpoint) : Prop where
  frame : s.nic.frames i = some f
  conn : s.nic.conns f.handle = some c
  call : c.calls i = some (.connect ip remote.port)
  address : AsyncSocket.connectAddress tcp ip = .ok remote.addr

omit [DecidableEq ι] in
/-- The socket `h'` is open towards `remote`. -/
def OpenTowards (s : Ports tcp ι) (h' : Handle) (remote : IpEndpoint) : Prop :=
  ∃ c, s.nic.conns h' = some c ∧ c.view.isOpen = true ∧ c.view.remote = remote

omit [DecidableEq ι] in
/-- The port that `LOCAL_ENDPOINT` holds can be used to connect `h` to `remote`: it
is a port, and no other socket that is open towards `remote` has it. -/
def PortUsable (s : Ports tcp ι) (h : Handle) (remote : IpEndpoint) : Prop :=
  s.nic.localEndpoint ≠ 0 ∧
    ∀ h', h' ≠ h → s.OpenTowards h' remote →
      ∃ o, s.binding h' = some o ∧ o.port ≠ s.nic.localEndpoint

omit [DecidableEq ι] in
/-- The number of the call and the start value do not add up to a multiple of
65536, no socket that is still open towards `remote` was opened a multiple of 65536
calls ago, and none was accepted on the port that start and number add up to. -/
def Fresh (s : Ports tcp ι) (rdtsc : UInt64) (h : Handle) (remote : IpEndpoint) : Prop :=
  ¬ 65536 ∣ (startEndpoint rdtsc).toNat + s.taken ∧
    ∀ h', h' ≠ h → s.OpenTowards h' remote → ∀ o, s.binding h' = some o →
      match o.origin with
      | .connect m => m % 65536 ≠ s.taken % 65536
      | .accept => o.port.toNat ≠ ((startEndpoint rdtsc).toNat + s.taken) % 65536

/-! ## The invariant -/

omit [DecidableEq ι] in
/-- Every open socket has been opened by a call. -/
def Named (binding : Handle → Option Binding) (conns : Handle → Option (Conn tcp ι)) : Prop :=
  ∀ h c, conns h = some c → c.view.isOpen = true → (binding h).isSome = true

/-- What the ghosts say is true. -/
structure Inv (start : UInt16) (s : Ports tcp ι) : Prop where
  counter : s.nic.localEndpoint = start + UInt16.ofNat s.taken
  named : Named s.binding s.nic.conns
  origin : ∀ h o m, s.binding h = some o → o.origin = .connect m →
    o.port = start + UInt16.ofNat m

section Views

omit [DecidableEq ι]

/-- A socket that is not open stays so when a segment comes. -/
theorem isOpen_process {v : TcpView} {g : Segment} (h : (v.process g).isOpen = true) :
    v.isOpen = true := by
  have hstep := TcpState.process_step v.state g
  replace h : TcpView.isOpen { v with state := v.state.process g } = true := h
  unfold TcpView.isOpen at h ⊢
  simp only at h
  generalize v.state.process g = st' at hstep h
  generalize v.state = st at hstep ⊢
  cases hstep <;> first | rfl | exact h | cases h

theorem isOpen_expire {v : TcpView} (h : v.expire.isOpen = true) : v.isOpen = true := by
  unfold TcpView.expire at h
  split at h
  · cases h
  · exact h

/-- Of the critical sections only the first one of `connect` or `accept` opens a
socket. -/
theorem isOpen_step {self : Handle} {v v' : TcpView} {fut : Future} {progress : Progress}
    (h : Future.Step self v fut progress v') (hopen : v'.isOpen = true) :
    v.isOpen = true ∨ fut.opens = true ∧ ∃ fut', progress = .next fut' := by
  cases h with
  | connectStart | acceptStart => exact .inr ⟨rfl, _, rfl⟩
  | close =>
    refine .inl ?_
    revert hopen
    unfold TcpView.close TcpView.isOpen
    cases v.state <;> first | exact fun _ => rfl | exact id
  | _ => exact .inl hopen

end Views

omit [DecidableEq ι] in
theorem Named.update {binding : Handle → Option Binding}
    {conns : Handle → Option (Conn tcp ι)} (h : Named binding conns) {h' : Handle}
    {next : Option (Conn tcp ι)}
    (hnext : ∀ c, next = some c → c.view.isOpen = true → (binding h').isSome = true) :
    Named binding (Function.update conns h' next) := by
  intro h₁ c hc hopen
  rcases update_cases hc with ⟨rfl, hnew⟩ | ⟨-, hold⟩
  · exact hnext c hnew hopen
  · exact h h₁ c hold hopen

/-- A step of the socket `h'` that does not open it. -/
theorem Named.getD {binding : Handle → Option Binding}
    {conns : Handle → Option (Conn tcp ι)} (h : Named binding conns) (h' : Handle)
    {l : Conn.Label W ι}
    (hl : ∀ c : Conn tcp ι, ((c.next l).getD c).view.isOpen = true → c.view.isOpen = true) :
    Named binding
      (Function.update conns h' ((conns h').map fun c => (c.next l).getD c)) := by
  refine h.update fun c hc hopen => ?_
  obtain ⟨c₀, hc₀, rfl⟩ := Option.map_eq_some_iff.mp hc
  exact h h' c₀ hc₀ (hl c₀ hopen)

variable [tcp.Documented]

theorem Named.events {binding : Handle → Option Binding}
    {conns : Handle → Option (Conn tcp ι)} (h : Named binding conns)
    (events : List (Handle × Event)) :
    Named binding (events.foldl Nic.handleEvent conns) := by
  induction events generalizing conns with
  | nil => exact h
  | cons e events ih =>
    refine ih (h.getD e.1 fun c hopen => ?_)
    obtain ⟨h', e⟩ := e
    cases e with
    | segment g =>
      replace hopen : (tcp.view (tcp.process c.socket g)).isOpen = true := hopen
      rw [SmolTcp.Documented.process_view] at hopen
      exact isOpen_process hopen
    | expire =>
      replace hopen : (tcp.view (tcp.expire c.socket)).isOpen = true := hopen
      rw [SmolTcp.Documented.expire_view] at hopen
      exact isOpen_expire hopen

omit [DecidableEq ι] [tcp.Documented] in
theorem nextSection_eq {n : Nic tcp ι} {i : ι} {cx : W} {f : Frame} {c : Conn tcp ι}
    {fut : Future} (hf : n.frames i = some f) (hc : n.conns f.handle = some c)
    (hfut : c.calls i = some fut) :
    nextSection n i cx = some (f.handle, fut, (c.step fut cx n.localEndpoint).1) := by
  simp [nextSection, hf, hc, hfut]

omit [DecidableEq ι] [tcp.Documented] in
/-- A socket that is opened is given a port. -/
theorem bindingOf_opens (s : Ports tcp ι) {fut : Future} (h : fut.opens = true)
    (fut' : Future) : ∃ o, s.bindingOf fut (.next fut') = some o := by
  cases fut with
  | connect | accept => exact ⟨_, rfl⟩
  | _ => cases h

omit [DecidableEq ι] [tcp.Documented] in
/-- What `connect` gives it is the number in `LOCAL_ENDPOINT`. -/
theorem bindingOf_connect {s : Ports tcp ι} {fut : Future} {progress : Progress}
    {o : Binding} {m : Nat} (h : s.bindingOf fut progress = some o)
    (ho : o.origin = .connect m) : o.port = s.nic.localEndpoint ∧ m = s.taken := by
  unfold bindingOf at h
  split at h <;> cases h
  · cases ho
    exact ⟨rfl, rfl⟩
  · cases ho

/-- What is bound stays bound. -/
theorem isSome_bind {binding : Handle → Option Binding} {h h' : Handle}
    (o : Option Binding) (hb : (binding h').isSome = true) :
    (bind binding h o h').isSome = true := by
  cases o with
  | none => exact hb
  | some o =>
    show (Function.update binding h (some o) h').isSome = true
    by_cases hh : h' = h
    · rw [hh, Function.update_self]
      rfl
    · rw [Function.update_of_ne hh]
      exact hb

omit [DecidableEq ι] [tcp.Documented] in
/-- A step that takes no port and opens no socket. -/
theorem Inv.keep {start : UInt16} {s : Ports tcp ι} (h : s.Inv start) {nic : Nic tcp ι}
    (hport : nic.localEndpoint = s.nic.localEndpoint)
    (hnamed : Named s.binding nic.conns) : Inv start { s with nic } where
  counter := hport.trans h.counter
  named := hnamed
  origin := h.origin

/-- A critical section. -/
theorem Inv.section {start : UInt16} {s : Ports tcp ι} (h : s.Inv start) {i : ι} {cx : W}
    {f : Frame} {c : Conn tcp ι} {fut : Future} {driver : Driver}
    (hf : s.nic.frames i = some f) (hc : s.nic.conns f.handle = some c)
    (hfut : c.calls i = some fut) :
    Inv start (s.remember (s.nic.sectioned i f c fut cx driver) (.section i cx)) := by
  have hspec := c.step_spec fut cx s.nic.localEndpoint
  simp only [remember, nextSection_eq hf hc hfut]
  constructor
  · simp only [Nic.sectioned]
    split
    · rw [h.counter, ← UInt16.toNat_inj, UInt16.toNat_add, toNat_add_ofNat, toNat_add_ofNat]
      simp [Nat.add_assoc]
    · exact h.counter
  · intro h' c' hc' hopen
    rcases update_cases hc' with ⟨rfl, hnew⟩ | ⟨-, hold⟩
    · cases hnew
      rcases isOpen_step hspec hopen with hold | ⟨hopens, fut', hnext⟩
      · exact isSome_bind _ (h.named _ c hc hold)
      · obtain ⟨o, ho⟩ := s.bindingOf_opens hopens fut'
        simp only [hnext, ho, bind, Function.update_self]
        rfl
    · exact isSome_bind _ (h.named h' c' hold hopen)
  · intro h' o m ho horigin
    cases hb : s.bindingOf fut (c.step fut cx s.nic.localEndpoint).1 with
    | none =>
      simp only [hb, bind] at ho
      exact h.origin h' o m ho horigin
    | some b =>
      simp only [hb, bind] at ho
      rcases update_cases ho with ⟨-, ho⟩ | ⟨-, ho⟩
      · cases ho
        obtain ⟨hport, rfl⟩ := bindingOf_connect hb horigin
        exact hport.trans h.counter
      · exact h.origin h' o m ho horigin

theorem inv_next {start : UInt16} {s s' : Ports tcp ι} {l : Nic.Label W ι}
    (h : s.Inv start) (hnext : s.next l = some s') : s'.Inv start := by
  obtain ⟨nic, hnic, rfl⟩ := Option.map_eq_some_iff.mp hnext
  have hstep := Nic.step_of_next hnic
  cases hstep with
  | @«section» i cx f c fut driver hf hc hfut _ => exact h.section hf hc hfut
  | act => exact h.keep rfl h.named
  | @openSocket i call h' start fut c _ hnone hopen =>
    refine h.keep rfl (h.named.update fun c' hc' hopened => ?_)
    cases hc'
    obtain ⟨-, hc⟩ := Option.ite_none_right_eq_some.mp hopen
    cases hc
    -- a new socket is closed
    replace hopened : (tcp.view (tcp.new 65535 65535)).isOpen = true := hopened
    rw [SmolTcp.Documented.new_view] at hopened
    cases hopened
  | @call i call h' start fut c c' _ _ hc hcall =>
    refine h.keep rfl (h.named.update fun c'' hc'' hopen => ?_)
    cases hc''
    obtain ⟨-, hc'⟩ := Option.ite_none_right_eq_some.mp hcall
    cases hc'
    exact h.named h' c hc hopen
  | @sched l events sched _ _ =>
    refine h.keep rfl ?_
    simp only [Nic.scheduled]
    split
    · exact h.named.events events
    · exact h.named
  | @ret i f res _ _ =>
    refine h.keep rfl (h.named.getD f.handle fun c hopen => ?_)
    cases hdrop : c.next (.drop i) with
    | none => rwa [hdrop] at hopen
    | some c' =>
      obtain ⟨fut, -, rfl⟩ := Option.map_eq_some_iff.mp hdrop
      rwa [hdrop] at hopen

theorem Reachable.inv {rdtsc : UInt64} {s : Ports tcp ι}
    (h : (machine tcp ι rdtsc).Reachable s) : s.Inv (startEndpoint rdtsc) := by
  refine h.invariant (I := Inv (startEndpoint rdtsc)) ?_ fun _ _ _ => inv_next
  rintro _ rfl
  constructor
  · simp [networkInit, Nic.networkInit]
  · intro h' c hc
    cases hc
  · intro h' o m ho
    cases ho

/-! ## Exactly when the port can be used -/

omit [DecidableEq ι] [tcp.Documented] in
theorem Inv.ne_zero_iff {start : UInt16} {s : Ports tcp ι} (h : s.Inv start) :
    s.nic.localEndpoint ≠ 0 ↔ ¬ 65536 ∣ start.toNat + s.taken := by
  rw [h.counter, Ne, add_ofNat_eq_zero_iff]

omit [DecidableEq ι] [tcp.Documented] in
/-- Another socket has another port. -/
theorem Inv.port_ne_iff {start : UInt16} {s : Ports tcp ι} (h : s.Inv start) {h' : Handle}
    {o : Binding} (ho : s.binding h' = some o) :
    o.port ≠ s.nic.localEndpoint ↔
      match o.origin with
      | .connect m => m % 65536 ≠ s.taken % 65536
      | .accept => o.port.toNat ≠ (start.toNat + s.taken) % 65536 := by
  cases horigin : o.origin with
  | connect m =>
    show _ ↔ m % 65536 ≠ s.taken % 65536
    rw [h.origin h' o m ho horigin, h.counter, Ne, add_ofNat_eq_iff]
  | accept =>
    show _ ↔ o.port.toNat ≠ (start.toNat + s.taken) % 65536
    rw [h.counter, Ne, ← UInt16.toNat_inj, toNat_add_ofNat]

/-- **Exactly when the port of a `connect` can be used**: `TcpSocket::connect` is
given the number in `LOCAL_ENDPOINT`; in every run and for every start value, that
number can be used if it is fresh, and only then. -/
theorem port_usable_iff {rdtsc : UInt64} {s : Ports tcp ι}
    (hs : (machine tcp ι rdtsc).Reachable s) {i : ι} {f : Frame} {c : Conn tcp ι}
    {ip : ByteArray} {remote : IpEndpoint} (hconnects : s.Connects i f c ip remote) :
    (∀ cx, (c.step (.connect ip remote.port) cx s.nic.localEndpoint).2 =
      (tcp.connect c.socket remote s.nic.localEndpoint).2) ∧
    (s.PortUsable f.handle remote ↔ s.Fresh rdtsc f.handle remote) := by
  have hinv := Reachable.inv hs
  constructor
  · intro cx
    simp only [Conn.step, Future.step, hconnects.address]
    rfl
  have hzero := hinv.ne_zero_iff
  constructor
  · rintro ⟨hne, husable⟩
    refine ⟨hzero.mp hne, fun h' hh hopen o ho => ?_⟩
    obtain ⟨o', ho', hport⟩ := husable h' hh hopen
    cases ho.symm.trans ho'
    exact (hinv.port_ne_iff ho).mp hport
  · rintro ⟨hne, hfresh⟩
    refine ⟨hzero.mpr hne, fun h' hh hopen => ?_⟩
    -- the socket is open, so it has been given a port
    have hbound : (s.binding h').isSome = true := by
      obtain ⟨c', hc', hopen', -⟩ := hopen
      exact hinv.named h' c' hc' hopen'
    obtain ⟨o, ho⟩ := Option.isSome_iff_exists.mp hbound
    exact ⟨o, ho, (hinv.port_ne_iff ho).mpr (hfresh h' hh hopen o ho)⟩

/-! ## The first `connect` -/

/-- A thread is about to `connect`, the first to do so after the boot. -/
theorem connects_first (rdtsc : UInt64) :
    ∃ (s : Ports (reference Unit) Unit) (f : Frame) (c : Conn (reference Unit) Unit),
      (machine (reference Unit) Unit rdtsc).Reachable s ∧
      s.Connects () f c remoteHostText ⟨.ipv4 0x0a000002, 80⟩ ∧
      s.nic.localEndpoint = startEndpoint rdtsc ∧ s.taken = 0 ∧
      ∀ h, h ≠ f.handle → s.nic.conns h = none := by
  have haddress : AsyncSocket.connectAddress (reference Unit) remoteHostText =
      .ok (.ipv4 0x0a000002) := by decide +kernel
  have hinit : (machine (reference Unit) Unit rdtsc).Reachable
      (networkInit (reference Unit) Unit rdtsc) := .init rfl
  let call := Syscall.streamConnect remoteHostText 80 none
  have hs := hinit.step (a := .openSocket () call 0 ⟨0⟩) rfl
  refine ⟨_, _, _, hs, ⟨rfl, rfl, rfl, haddress⟩, rfl, rfl, ?_⟩
  intro h hne
  exact Function.update_of_ne hne ..

/-- Booted at the time stamp 0, its local port is 0. -/
theorem first_port_zero :
    ¬ ∀ (rdtsc : UInt64) (s : Ports (reference Unit) Unit) (i : Unit) (f : Frame)
      (c : Conn (reference Unit) Unit) (ip : ByteArray) (remote : IpEndpoint),
      (machine (reference Unit) Unit rdtsc).Reachable s → s.Connects i f c ip remote →
        s.PortUsable f.handle remote := by
  intro h
  obtain ⟨s, f, c, hs, hconnects, hport, -⟩ := connects_first 0
  exact (h 0 s () f c _ _ hs hconnects).1 hport

/-- Booted at the time stamp 49152, it is 49152. -/
theorem first_port_usable : ∃ (s : Ports (reference Unit) Unit) (f : Frame),
    (machine (reference Unit) Unit 49152).Reachable s ∧ s.nic.localEndpoint = 49152 ∧
      s.PortUsable f.handle ⟨.ipv4 0x0a000002, 80⟩ := by
  obtain ⟨s, f, c, hs, hconnects, hport, htaken, hnone⟩ := connects_first 49152
  have hfresh : s.Fresh 49152 f.handle ⟨.ipv4 0x0a000002, 80⟩ := by
    constructor
    · rw [htaken]
      decide
    · rintro h' hne ⟨c', hc', -⟩
      cases (hnone h' hne).symm.trans hc'
  exact ⟨s, f, hs, hport, (port_usable_iff hs hconnects).2.mpr hfresh⟩

end Ports

end RustyHermit.Net
