import RustyHermit.Lib.Wakers
import RustyHermit.Smoltcp.Reference

/-!
# The wakers of a `TcpSocket`

With the feature `async` a socket of smoltcp 0.7 has one slot for a task that waits
to receive and one for a task that waits to send. `SmolTcp.Async` lists what the
code relies on: a change of the state wakes both slots, octets that arrive wake the
one, octets that are acknowledged the other, and to take octets from the socket or
give it some wakes nobody.

What becomes of a waker that another one displaces is no part of this: smoltcp 0.7.5
overwrites it and wakes nobody. That it is woken is an assumption of its own,
`SmolTcp.WakesDisplaced`.

`asyncReference` is the reference socket with its two slots, of either kind.
-/

namespace RustyHermit.Smoltcp

/-- The two slots. -/
inductive Slot where
  | recv
  | send
deriving DecidableEq, Repr

/-- What is between the sockets `s` and `s'` loses no waker, and wakes both slots if
it changes the state. -/
structure SmolTcp.Signals {W : Type} (tcp : SmolTcp W)
    (wakers : tcp.Socket → Wakers Slot W) (s s' : tcp.Socket) : Prop where
  keeps : (wakers s).Keeps (wakers s')
  state : (tcp.view s').state ≠ (tcp.view s).state →
    ∀ k, (wakers s).Wakes (wakers s') k

/-- What holds of the slots whether or not a displaced waker is woken, and that an open
socket is not opened again. -/
class SmolTcp.Async {W : Type} [DecidableEq W] (tcp : SmolTcp W) where
  wakers : tcp.Socket → Wakers Slot W
  registerRecvWaker_registers : ∀ s w,
    (wakers s).Registers (wakers (tcp.registerRecvWaker s w)) .recv w
  registerSendWaker_registers : ∀ s w,
    (wakers s).Registers (wakers (tcp.registerSendWaker s w)) .send w
  recvSlice_eq : ∀ s n, wakers (tcp.recvSlice s n).2 = wakers s
  sendSlice_eq : ∀ s data, wakers (tcp.sendSlice s data).2 = wakers s
  setKeepAlive_eq : ∀ s d, wakers (tcp.setKeepAlive s d) = wakers s
  connect_signals : ∀ s remote port, tcp.Signals wakers s (tcp.connect s remote port).2
  listen_signals : ∀ s port, tcp.Signals wakers s (tcp.listen s port).2
  close_signals : ∀ s, tcp.Signals wakers s (tcp.close s)
  /-- `Err(Illegal)` if the socket is open -/
  connect_closed : ∀ s remote port, (tcp.connect s remote port).1 = .ok () →
    (tcp.view s).isOpen = false
  listen_closed : ∀ s port, (tcp.listen s port).1 = .ok () → (tcp.view s).isOpen = false
  process_signals : ∀ s g, tcp.Signals wakers s (tcp.process s g)
  expire_signals : ∀ s, tcp.Signals wakers s (tcp.expire s)
  /-- octets arrive -/
  process_taken : ∀ s g, (tcp.view s).taken g ≠ [] →
    (wakers s).Wakes (wakers (tcp.process s g)) .recv
  /-- octets are acknowledged -/
  process_acked : ∀ s g, (tcp.view s).acked g ≠ [] →
    (wakers s).Wakes (wakers (tcp.process s g)) .send

/-- **Not smoltcp 0.7.5**: registering a waker wakes another one that it displaces. -/
class SmolTcp.WakesDisplaced {W : Type} [DecidableEq W] (tcp : SmolTcp W) [tcp.Async] :
    Prop where
  registerRecvWaker_wakes : ∀ s w w', (Async.wakers s).slot .recv = some w' → w' ≠ w →
    (Async.wakers s).woken w' < (Async.wakers (tcp.registerRecvWaker s w)).woken w'
  registerSendWaker_wakes : ∀ s w w', (Async.wakers s).slot .send = some w' → w' ≠ w →
    (Async.wakers s).woken w' < (Async.wakers (tcp.registerSendWaker s w)).woken w'

/-! ## A socket with slots -/

namespace TcpView

theorem isOpen_of_connect (v : TcpView) {remote : IpEndpoint} {port : UInt16}
    (h : (v.connect remote port).1 = .ok ()) : v.isOpen = false := by
  unfold connect at h
  split at h
  · cases h
  · exact Bool.eq_false_iff.mpr ‹_›

theorem isOpen_of_listen (v : TcpView) {port : UInt16} (h : (v.listen port).1 = .ok ()) :
    v.isOpen = false := by
  unfold listen at h
  split at h
  · cases h
  · split at h
    · cases h
    · exact Bool.eq_false_iff.mpr ‹_›

end TcpView

section Reference

variable {W : Type} [DecidableEq W] {wakes : Bool}

/-- The slots that `set_state` wakes. -/
def stateSlots (v v' : TcpView) : List Slot :=
  if v'.state ≠ v.state then [.recv, .send] else []

/-- The slots that a segment wakes. -/
def segmentSlots (v : TcpView) (g : Segment) : List Slot :=
  stateSlots v (v.process g) ++
    (if v.taken g ≠ [] then [.recv] else []) ++ (if v.acked g ≠ [] then [.send] else [])

/-- The reference socket with its slots; `wakes` tells whether registering wakes the waker
that it displaces. That of smoltcp 0.7.5 does not. -/
def asyncReference (W : Type) [DecidableEq W] (wakes : Bool) : SmolTcp W where
  Socket := TcpView × Wakers Slot W
  new rx tx := ((reference W).new rx tx, .empty)
  view s := s.1
  state s := s.1.state
  remoteEndpoint s := s.1.remote
  isActive s := s.1.isActive
  mayRecv s := s.1.mayRecv
  canRecv s := s.1.canRecv
  canSend s := s.1.canSend
  sendQueue s := s.1.tx.length
  connect s remote port :=
    let (res, v) := s.1.connect remote port
    (res, v, s.2.wakeAll (stateSlots s.1 v))
  listen s port :=
    let (res, v) := s.1.listen port
    (res, v, s.2.wakeAll (stateSlots s.1 v))
  recvSlice s n :=
    let (res, v) := s.1.recvSlice n
    (res, v, s.2)
  sendSlice s data :=
    let (res, v) := s.1.sendSlice data
    (res, v, s.2)
  close s := (s.1.close, s.2.wakeAll (stateSlots s.1 s.1.close))
  setKeepAlive s _ := s
  registerRecvWaker s w := (s.1, s.2.register wakes .recv w)
  registerSendWaker s w := (s.1, s.2.register wakes .send w)
  process s g := (s.1.process g, s.2.wakeAll (segmentSlots s.1 g))
  expire s := (s.1.expire, s.2.wakeAll (stateSlots s.1 s.1.expire))
  fromStr := ipv4FromStr

instance : (asyncReference W wakes).Documented where
  new_view _ _ := rfl
  state_eq _ := rfl
  remoteEndpoint_eq _ := rfl
  isActive_eq _ := rfl
  mayRecv_eq _ := rfl
  canRecv_eq _ := rfl
  canSend_eq _ := rfl
  sendQueue_eq _ := rfl
  connect_specified s := (inferInstance : (reference W).Documented).connect_specified s.1
  connect_ok s := (inferInstance : (reference W).Documented).connect_ok s.1
  connect_error s := (inferInstance : (reference W).Documented).connect_error s.1
  listen_ok s := (inferInstance : (reference W).Documented).listen_ok s.1
  listen_error s := (inferInstance : (reference W).Documented).listen_error s.1
  recvSlice_eq s := (inferInstance : (reference W).Documented).recvSlice_eq s.1
  sendSlice_eq s := (inferInstance : (reference W).Documented).sendSlice_eq s.1
  close_view _ := rfl
  setKeepAlive_view _ _ := rfl
  registerRecvWaker_view _ _ := rfl
  registerSendWaker_view _ _ := rfl
  process_view _ _ := rfl
  expire_view _ := rfl

omit [DecidableEq W] in
theorem recv_mem_segmentSlots {v : TcpView} {g : Segment} (h : v.taken g ≠ []) :
    .recv ∈ segmentSlots v g := by
  simp [segmentSlots, h]

omit [DecidableEq W] in
theorem send_mem_segmentSlots {v : TcpView} {g : Segment} (h : v.acked g ≠ []) :
    .send ∈ segmentSlots v g := by
  simp [segmentSlots, h]

/-- Waking the slots of a change of state, and perhaps others. -/
theorem signals_wakeAll {s : TcpView × Wakers Slot W} {v : TcpView} {ks : List Slot}
    (hks : stateSlots s.1 v ⊆ ks) :
    (asyncReference W wakes).Signals Prod.snd s (v, s.2.wakeAll ks) where
  keeps := s.2.keeps_wakeAll ks
  state hne k := by
    refine s.2.wakes_wakeAll (hks ?_)
    have hslots : stateSlots s.1 v = [.recv, .send] := if_pos hne
    rw [hslots]
    cases k <;> simp

instance : (asyncReference W wakes).Async where
  wakers := Prod.snd
  registerRecvWaker_registers s w := s.2.registers_register wakes .recv w
  registerSendWaker_registers s w := s.2.registers_register wakes .send w
  recvSlice_eq _ _ := rfl
  sendSlice_eq _ _ := rfl
  setKeepAlive_eq _ _ := rfl
  connect_signals _ _ _ := signals_wakeAll (List.Subset.refl _)
  listen_signals _ _ := signals_wakeAll (List.Subset.refl _)
  close_signals _ := signals_wakeAll (List.Subset.refl _)
  connect_closed s _ _ h := s.1.isOpen_of_connect h
  listen_closed s _ h := s.1.isOpen_of_listen h
  process_signals _ _ := signals_wakeAll fun _ hk =>
    List.mem_append_left _ (List.mem_append_left _ hk)
  expire_signals _ := signals_wakeAll (List.Subset.refl _)
  process_taken s _ h := s.2.wakes_wakeAll (recv_mem_segmentSlots h)
  process_acked s _ h := s.2.wakes_wakeAll (send_mem_segmentSlots h)

instance : (asyncReference W true).WakesDisplaced where
  registerRecvWaker_wakes _ _ _ hslot hne := Wakers.lt_register hslot hne
  registerSendWaker_wakes _ _ _ hslot hne := Wakers.lt_register hslot hne

end Reference

end RustyHermit.Smoltcp
