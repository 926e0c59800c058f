import RustyHermit.Net.Conn
import RustyHermit.Net.Scheduler

/-!
# The network as a whole: system calls, the executor, the interface

Application threads make system calls. Each drives a future of an `AsyncSocket`
by `block_on` or `poll_on`; a critical section of the future changes a socket
and wakes the NIC; a driver that is in `run_executor` runs `network_run`, which
polls the interface, as `nic_thread` does; and a poll of the interface hands
segments to the sockets. What the drivers read from the clock, from
`network_delay` and from the `unparked` flag, and when a blocked thread goes on,
is left open.

The machine is put together from the parts: a `Scheduler`, one `Conn` for every
socket of `nic.sockets`, and one driver for every thread in a system call.

- `Nic.machine`: all runs, from the end of `network_init` on.
- `Nic.simulation`: what the machine does to its `Scheduler` is a run of the
  `Scheduler`, so the invariant of the network task holds (`Reachable.sched`).
- `Nic.Reachable.conn`: what it does to a socket is a run of that `Conn`, so
  every theorem about one socket holds of each socket of the NIC.
-/

namespace RustyHermit.Net

open RustyHermit.Smoltcp RustyHermit.Executor

/-! ## System calls and their drivers -/

/-- The system calls on TCP sockets. -/
inductive Syscall where
  | streamConnect (ip : ByteArray) (port : UInt16) (timeout : Option UInt64)
  | listenerAccept (port : UInt16)
  | streamRead (handle : Handle) (len : Nat)
  | streamWrite (handle : Handle) (buffer : List UInt8)
  | streamClose (handle : Handle)
  | streamShutdown (handle : Handle) (how : Int32)

/-- The drivers of a future. -/
inductive Driver where
  | pollOn (call : PollOn.Call (Except Error Output))
  | blockOn (call : BlockOn.Call (Except Error Output))

namespace Syscall

/-- The future the call drives. `sys_tcp_stream_shutdown` closes both for
`Write` and for `Both`, and drives no future otherwise. -/
def future : Syscall → Option Future
  | .streamConnect ip port _ => some (.connect ip port)
  | .listenerAccept port => some (.accept port)
  | .streamRead _ len => some (.read len)
  | .streamWrite _ buffer => some (.write buffer)
  | .streamClose _ => some .close
  | .streamShutdown _ how => if how = 1 ∨ how = 2 then some .close else none

/-- The handle it is given. -/
def handle : Syscall → Option Handle
  | .streamConnect .. | .listenerAccept _ => none
  | .streamRead handle _ | .streamWrite handle _ | .streamClose handle
  | .streamShutdown handle _ => some handle

/-- How it drives the future. -/
def driver (start : Instant) : Syscall → Driver
  | .streamConnect _ _ timeout => .blockOn (.enter start (timeout.map Duration.mk))
  | .streamRead .. | .streamWrite .. => .pollOn (.enter start none)
  | _ => .blockOn (.enter start none)

end Syscall

namespace Driver

/-- What a driver reads or does in one step. -/
inductive Act where
  | pollOn (a : PollOn.Act (Except Error Output))
  | blockOn (a : BlockOn.Act (Except Error Output))

/-- A poll of the future. -/
def Act.isPoll : Act → Bool
  | .pollOn (.poll _) | .blockOn (.poll _) => true
  | _ => false

/-- `run_executor` returns. -/
def Act.leavesExecutor : Act → Bool
  | .pollOn .runExecutor | .blockOn .runExecutor => true
  | _ => false

def next : Driver → Act → Option Driver
  | .pollOn call, .pollOn a => (call.next a).map .pollOn
  | .blockOn call, .blockOn a => (call.next a).map .blockOn
  | _, _ => none

/-- The poll of the future is over. -/
def poll (d : Driver) (p : Poll (Except Error Output)) : Option Driver :=
  match d with
  | .pollOn call => (call.next (.poll p)).map .pollOn
  | .blockOn call => (call.next (.poll p)).map .blockOn

/-- The driver is polling the future. -/
def polling : Driver → Bool
  | .pollOn ⟨_, _, .poll⟩ | .blockOn ⟨_, _, .poll⟩ => true
  | _ => false

/-- The driver is in `run_executor`. -/
def executing : Driver → Bool
  | .pollOn ⟨_, _, .runExecutor⟩ | .blockOn ⟨_, _, .runExecutor⟩ => true
  | _ => false

/-- What the driver returns, once it does. -/
def result : Driver → Option (Except Unit (Except Error Output))
  | .pollOn ⟨_, _, .ret res⟩ | .blockOn ⟨_, _, .ret res⟩ => some res
  | _ => none

/-- The driver after a critical section of its future. -/
def after (d : Driver) : Progress → Option Driver
  | .next _ => if d.polling then some d else none
  | .pending => d.poll .pending
  | .ready res => d.poll (.ready res)

end Driver

/-! ## The machine -/

/-- What a call has put into a socket for the interface to send. -/
inductive Change where
  | syn
  | data
  /-- the FIN of a socket that was in this state -/
  | fin (state : TcpState)
deriving DecidableEq

/-- A thread in a system call. -/
structure Frame where
  handle : Handle
  /-- it is the `connect` or `accept` that created the socket -/
  opens : Bool
  driver : Driver
  /-- ghost: the last change the call has made, and how often the interface had
  been polled by then -/
  change : Option (Change × Nat)

/-- What a poll of the interface does to one socket. -/
inductive Event where
  | segment (g : Segment)
  | expire

/-- The NIC, the executor and the threads. -/
structure Nic {W : Type} (tcp : SmolTcp W) (ι : Type) where
  sched : Scheduler ι
  /-- `LOCAL_ENDPOINT` -/
  localEndpoint : UInt16
  /-- `nic.sockets`, each with the calls on it -/
  conns : Handle → Option (Conn tcp ι)
  frames : ι → Option Frame
  /-- ghost: the handles that `connect` and `accept` have returned -/
  handed : List Handle
  /-- ghost: the sockets of calls of `connect` and `accept` that returned `Err` -/
  abandoned : List Handle

namespace Nic

variable {W : Type} {tcp : SmolTcp W} {ι : Type}

/-- What can happen next. -/
inductive Label (W ι : Type) where
  /-- thread `i` calls `connect` or `accept`; the new socket gets the handle `h` -/
  | openSocket (i : ι) (call : Syscall) (h : Handle) (start : Instant)
  /-- thread `i` makes a call on a handle -/
  | call (i : ι) (call : Syscall) (start : Instant)
  /-- thread `i` executes the next critical section of its future -/
  | section (i : ι) (cx : W)
  /-- a step of the driver of thread `i` other than a poll -/
  | act (i : ι) (a : Driver.Act)
  /-- a step of the executor, or of `nic_thread`; if it polls the interface,
  these events reach the sockets -/
  | sched (l : Scheduler.Label ι) (events : List (Handle × Event))
  /-- the call of thread `i` returns to the application -/
  | ret (i : ι)

/-- The change a critical section makes, if it makes one. -/
def changeOf (v : TcpView) : Future → Progress → Option Change
  | .connect _ _, .next _ => some .syn
  | .write _, .ready (.ok (.count n)) => if 0 < n then some .data else none
  | .close, .next _ =>
    match v.state with
    | .synReceived | .established | .closeWait => some (.fin v.state)
    | _ => none
  | _, _ => none

/-- `connect` takes a local port in its first critical section. -/
def takesPort (tcp : SmolTcp W) : Future → Bool
  | .connect ip _ => (AsyncSocket.connectAddress tcp ip).isOk
  | _ => false

/-- Thread `i` is in `run_executor`. -/
def executing (n : Nic tcp ι) (i : ι) : Bool :=
  (n.frames i).any fun f => f.driver.executing

/-- The future whose next critical section thread `i` is to execute. -/
def current (n : Nic tcp ι) (i : ι) : Option Future :=
  (n.frames i).bind fun f => (n.conns f.handle).bind fun c => c.calls i

theorem current_eq {n : Nic tcp ι} {i : ι} {f : Frame} {c : Conn tcp ι} {fut : Future}
    (hf : n.frames i = some f) (hc : n.conns f.handle = some c)
    (hfut : c.calls i = some fut) : n.current i = some fut := by
  simp [current, hf, hc, hfut]

/-- Only threads in `run_executor` run tasks. -/
def permits (n : Nic tcp ι) : Scheduler.Label ι → Bool
  | .withSocket _ => false
  | .pop i | .start i | .networkRun i | .otherRun i _ | .finish i => n.executing i
  | .nicThread | .wakeOther _ => true

variable [DecidableEq ι]

/-- One event. -/
def handleEvent (conns : Handle → Option (Conn tcp ι)) (e : Handle × Event) :
    Handle → Option (Conn tcp ι) :=
  let label : Conn.Label W ι := match e.2 with
    | .segment g => .segment g
    | .expire => .expire
  Function.update conns e.1 ((conns e.1).map fun c => (c.next label).getD c)

/-- Thread `i` enters a system call on the socket `h`, which is then `c`. -/
def entered (n : Nic tcp ι) (i : ι) (h : Handle) (opens : Bool) (driver : Driver)
    (c : Conn tcp ι) : Nic tcp ι :=
  { n with
    conns := Function.update n.conns h (some c)
    frames := Function.update n.frames i
      (some { handle := h, opens, driver, change := none }) }

/-- Thread `i` has executed the critical section `fut` on its socket `c`. -/
def sectioned (n : Nic tcp ι) (i : ι) (f : Frame) (c : Conn tcp ι) (fut : Future)
    (cx : W) (driver : Driver) : Nic tcp ι :=
  let progress := (c.step fut cx n.localEndpoint).1
  { n with
    sched := if fut.usesWith tcp then n.sched.withSocket i else n.sched
    localEndpoint := if takesPort tcp fut then n.localEndpoint + 1 else n.localEndpoint
    conns := Function.update n.conns f.handle (c.polled i fut cx n.localEndpoint)
    frames := Function.update n.frames i (some { f with
      driver
      change := match changeOf c.view fut progress with
        | some change => some (change, n.sched.polls)
        | none => f.change }) }

/-- The driver of thread `i` has made a step. -/
def driven (n : Nic tcp ι) (i : ι) (f : Frame) (driver : Driver) : Nic tcp ι :=
  { n with frames := Function.update n.frames i (some { f with driver }) }

/-- The scheduler has made the step `l`. -/
def scheduled (n : Nic tcp ι) (l : Scheduler.Label ι) (events : List (Handle × Event))
    (sched : Scheduler ι) : Nic tcp ι :=
  { n with
    sched
    conns := if l.pollsInterface then events.foldl handleEvent n.conns else n.conns }

/-- The call of thread `i` has returned; a future that is not ready is dropped. -/
def returned (n : Nic tcp ι) (i : ι) (f : Frame)
    (res : Except Unit (Except Error Output)) : Nic tcp ι :=
  let ok := match res with
    | .ok (.ok _) => true
    | _ => false
  { n with
    conns := Function.update n.conns f.handle
      ((n.conns f.handle).map fun c => (c.next (.drop i)).getD c)
    frames := Function.update n.frames i none
    handed := if f.opens && ok then f.handle :: n.handed else n.handed
    abandoned := if f.opens && !ok then f.handle :: n.abandoned else n.abandoned }

/-- `run_executor` returns when it finds `QUEUE` empty. -/
def mayAct (n : Nic tcp ι) (i : ι) (a : Driver.Act) : Prop :=
  a.isPoll = false ∧ (a.leavesExecutor = true →
    n.sched.executor.queue = [] ∧ n.sched.executor.hold i = .nothing)

instance (n : Nic tcp ι) (i : ι) (a : Driver.Act) : Decidable (n.mayAct i a) :=
  inferInstanceAs (Decidable (_ ∧ _))

/-- One step. -/
def next (n : Nic tcp ι) : Label W ι → Option (Nic tcp ι)
  | .openSocket i call h start =>
    if n.frames i = none ∧ n.conns h = none then
      call.future.bind fun fut => ((Conn.new h).next (.open i fut)).map fun c =>
        n.entered i h true (call.driver start) c
    else none
  | .call i call start =>
    call.future.bind fun fut => call.handle.bind fun h => (n.conns h).bind fun c =>
      if n.frames i = none ∧ h ∈ n.handed then
        (c.next (.call i fut)).map fun c' => n.entered i h false (call.driver start) c'
      else none
  | .section i cx =>
    (n.frames i).bind fun f => (n.conns f.handle).bind fun c => (c.calls i).bind fun fut =>
      (f.driver.after (c.step fut cx n.localEndpoint).1).map fun driver =>
        n.sectioned i f c fut cx driver
  | .act i a =>
    if n.mayAct i a then
      (n.frames i).bind fun f => (f.driver.next a).map fun driver => n.driven i f driver
    else none
  | .sched l events =>
    if n.permits l then (n.sched.next l).map fun sched => n.scheduled l events sched
    else none
  | .ret i =>
    (n.frames i).bind fun f => f.driver.result.map fun res => n.returned i f res

/-- From the end of `network_init` on. The application may have handles already,
in any state a run of the socket can have led to. -/
def machine (tcp : SmolTcp W) (ι : Type) [DecidableEq ι] :
    Machine (Nic tcp ι) (Label W ι) where
  init n := n.sched = .networkInit ∧ (∀ i, n.frames i = none) ∧
    (∀ h, (n.conns h).isSome = true ↔ h ∈ n.handed) ∧ n.handed.Nodup ∧
    n.abandoned = [] ∧
    ∀ h c, n.conns h = some c → (Conn.machine tcp ι).Reachable c ∧ c.stage = .handed ∧
      ∀ i, c.calls i = none
  next := next

omit [DecidableEq ι] in
/-- The end of `network_init`: no sockets, no calls. -/
def networkInit (tcp : SmolTcp W) (ι : Type) (localEndpoint : UInt16) : Nic tcp ι :=
  { sched := .networkInit, localEndpoint, conns := fun _ => none
    frames := fun _ => none, handed := [], abandoned := [] }

theorem init_networkInit (localEndpoint : UInt16) :
    (machine tcp ι).init (networkInit tcp ι localEndpoint) := by
  refine ⟨rfl, fun _ => rfl, fun h => ?_, List.nodup_nil, rfl, fun h c hc => ?_⟩
  · simp [networkInit]
  · simp [networkInit] at hc

theorem reachable_networkInit (localEndpoint : UInt16) :
    (machine tcp ι).Reachable (networkInit tcp ι localEndpoint) :=
  .init (init_networkInit localEndpoint)

/-! ## What a step can be -/

/-- What one step can do, with its guard. -/
inductive Step (n : Nic tcp ι) : Label W ι → Nic tcp ι → Prop where
  | openSocket {i : ι} {call : Syscall} {h : Handle} {start : Instant} {fut : Future}
      {c : Conn tcp ι} : n.frames i = none → n.conns h = none →
      (Conn.new h).next (.open i fut) = some c →
      Step n (.openSocket i call h start) (n.entered i h true (call.driver start) c)
  | call {i : ι} {call : Syscall} {h : Handle} {start : Instant} {fut : Future}
      {c c' : Conn tcp ι} : n.frames i = none → h ∈ n.handed → n.conns h = some c →
      c.next (.call i fut) = some c' →
      Step n (.call i call start) (n.entered i h false (call.driver start) c')
  | section {i : ι} {cx : W} {f : Frame} {c : Conn tcp ι} {fut : Future}
      {driver : Driver} : n.frames i = some f → n.conns f.handle = some c →
      c.calls i = some fut →
      f.driver.after (c.step fut cx n.localEndpoint).1 = some driver →
      Step n (.section i cx) (n.sectioned i f c fut cx driver)
  | act {i : ι} {a : Driver.Act} {f : Frame} {driver : Driver} : a.isPoll = false →
      n.frames i = some f → f.driver.next a = some driver →
      Step n (.act i a) (n.driven i f driver)
  | sched {l : Scheduler.Label ι} {events : List (Handle × Event)}
      {sched : Scheduler ι} : n.permits l = true → n.sched.next l = some sched →
      Step n (.sched l events) (n.scheduled l events sched)
  | ret {i : ι} {f : Frame} {res : Except Unit (Except Error Output)} :
      n.frames i = some f → f.driver.result = some res →
      Step n (.ret i) (n.returned i f res)

/-- **Inversion**: `next` takes only the steps of the relation. -/
theorem step_of_next {n n' : Nic tcp ι} {l : Label W ι} (h : n.next l = some n') :
    Step n l n' := by
  cases l with
  | openSocket i call h' start =>
    obtain ⟨⟨hi, hh⟩, hrest⟩ := Option.ite_none_right_eq_some.mp h
    obtain ⟨fut, -, hrest⟩ := Option.bind_eq_some_iff.mp hrest
    obtain ⟨c, hc, rfl⟩ := Option.map_eq_some_iff.mp hrest
    exact .openSocket hi hh hc
  | call i call start =>
    obtain ⟨fut, -, hrest⟩ := Option.bind_eq_some_iff.mp h
    obtain ⟨h', -, hrest⟩ := Option.bind_eq_some_iff.mp hrest
    obtain ⟨c, hc, hrest⟩ := Option.bind_eq_some_iff.mp hrest
    obtain ⟨⟨hi, hh⟩, hrest⟩ := Option.ite_none_right_eq_some.mp hrest
    obtain ⟨c', hc', rfl⟩ := Option.map_eq_some_iff.mp hrest
    exact .call hi hh hc hc'
  | «section» i cx =>
    obtain ⟨f, hf, hrest⟩ := Option.bind_eq_some_iff.mp h
    obtain ⟨c, hc, hrest⟩ := Option.bind_eq_some_iff.mp hrest
    obtain ⟨fut, hfut, hrest⟩ := Option.bind_eq_some_iff.mp hrest
    obtain ⟨driver, hdriver, rfl⟩ := Option.map_eq_some_iff.mp hrest
    exact .section hf hc hfut hdriver
  | act i a =>
    obtain ⟨hact, hrest⟩ := Option.ite_none_right_eq_some.mp h
    obtain ⟨f, hf, hrest⟩ := Option.bind_eq_some_iff.mp hrest
    obtain ⟨driver, hdriver, rfl⟩ := Option.map_eq_some_iff.mp hrest
    exact .act hact.1 hf hdriver
  | sched l events =>
    obtain ⟨hl, hrest⟩ := Option.ite_none_right_eq_some.mp h
    obtain ⟨sched, hsched, rfl⟩ := Option.map_eq_some_iff.mp hrest
    exact .sched hl hsched
  | ret i =>
    obtain ⟨f, hf, hrest⟩ := Option.bind_eq_some_iff.mp h
    obtain ⟨res, hres, rfl⟩ := Option.map_eq_some_iff.mp hrest
    exact .ret hf hres

/-! ## The parts -/

/-- What the machine does to its scheduler is a run of the scheduler. -/
theorem simulation : Simulation (machine tcp ι) (Scheduler.machine ι)
    fun n sched => n.sched = sched where
  init n h := ⟨.networkInit, rfl, h.1⟩
  step n l n' sched hsched hnext := by
    subst hsched
    have hstep := step_of_next hnext
    cases hstep with
    | @«section» i cx f c fut driver =>
      simp only [sectioned]
      split
      · exact .inr ⟨.withSocket i, _, rfl, rfl⟩
      · exact .inl rfl
    | @sched l _ sched _ hsched => exact .inr ⟨l, sched, hsched, rfl⟩
    -- the rest is invisible to the scheduler
    | openSocket | call | act | ret => exact .inl rfl

/-- The invariant of the network task. -/
theorem Reachable.sched {n : Nic tcp ι} (h : (machine tcp ι).Reachable n) :
    n.sched.Inv := by
  obtain ⟨_, hsched, rfl⟩ := simulation.reachable h
  exact Scheduler.Reachable.inv hsched

/-- A step of a socket, if it is enabled. -/
theorem reachable_getD {c : Conn tcp ι} (h : (Conn.machine tcp ι).Reachable c)
    (l : Conn.Label W ι) : (Conn.machine tcp ι).Reachable ((c.next l).getD c) := by
  cases hnext : c.next l with
  | none => exact h
  | some c' => exact h.step hnext

/-- Every socket is in a state that a run of it leads to. -/
def ConnsReachable (conns : Handle → Option (Conn tcp ι)) : Prop :=
  ∀ h c, conns h = some c → (Conn.machine tcp ι).Reachable c

theorem ConnsReachable.update {conns : Handle → Option (Conn tcp ι)}
    (hconns : ConnsReachable conns) (h : Handle) {next : Option (Conn tcp ι)}
    (hnext : ∀ c, next = some c → (Conn.machine tcp ι).Reachable c) :
    ConnsReachable (Function.update conns h next) := by
  intro h' c hc
  rcases update_cases hc with ⟨-, hc⟩ | ⟨-, hc⟩
  · exact hnext c hc
  · exact hconns h' c hc

/-- A socket makes the step `l`, if it is there and the step is enabled. -/
theorem ConnsReachable.getD {conns : Handle → Option (Conn tcp ι)}
    (hconns : ConnsReachable conns) (h : Handle) (l : Conn.Label W ι) :
    ConnsReachable
      (Function.update conns h ((conns h).map fun c => (c.next l).getD c)) := by
  refine hconns.update h fun c hc => ?_
  obtain ⟨c₀, hc₀, rfl⟩ := Option.map_eq_some_iff.mp hc
  exact reachable_getD (hconns h c₀ hc₀) l

theorem ConnsReachable.events {conns : Handle → Option (Conn tcp ι)}
    (hconns : ConnsReachable conns) (events : List (Handle × Event)) :
    ConnsReachable (events.foldl handleEvent conns) := by
  induction events generalizing conns with
  | nil => exact hconns
  | cons e events ih => exact ih (hconns.getD e.1 _)

/-- What the machine does to a socket is a run of that socket. -/
theorem connsReachable_step {n n' : Nic tcp ι} {l : Label W ι}
    (h : ConnsReachable n.conns) (hstep : Step n l n') : ConnsReachable n'.conns := by
  cases hstep with
  | @openSocket i call h' start fut c _ _ hnext =>
    refine h.update h' ?_
    rintro _ ⟨⟩
    exact (Conn.reachable_new h').step (a := .open i fut) hnext
  | @call i call h' start fut c c' _ _ hc hnext =>
    refine h.update h' ?_
    rintro _ ⟨⟩
    exact (h h' c hc).step (a := .call i fut) hnext
  | @«section» i cx f c fut driver _ hc hfut _ =>
    refine h.update f.handle ?_
    rintro _ ⟨⟩
    refine (h f.handle c hc).step (a := .poll i cx n.localEndpoint) ?_
    exact Option.map_eq_some_iff.mpr ⟨fut, hfut, rfl⟩
  | act => exact h
  | @sched l events sched _ _ =>
    simp only [scheduled]
    split
    · exact h.events events
    · exact h
  | @ret i f res _ _ => exact h.getD f.handle (.drop i)

/-- **Each socket of the NIC runs as a `Conn`**: what holds in every reachable
state of one socket holds of every socket, in every reachable state of the
whole. -/
theorem Reachable.conn {n : Nic tcp ι} (h : (machine tcp ι).Reachable n) :
    ConnsReachable n.conns :=
  h.invariant (I := fun n => ConnsReachable n.conns)
    (fun _ hinit h' c hc => (hinit.2.2.2.2.2 h' c hc).1)
    fun _ _ _ hconns hnext => connsReachable_step hconns (step_of_next hnext)

end Nic

end RustyHermit.Net
