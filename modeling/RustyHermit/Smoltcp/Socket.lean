/-!
# What the code relies on of `smoltcp::socket::TcpSocket`

smoltcp is a dependency whose source is not part of the repository, so the
socket is a parameter: `SmolTcp W` has one operation for every method the code
calls, over an abstract type of sockets and of wakers `W`. What a caller can
observe of a socket is its `TcpView`: the TCP state, the remote endpoint and
the contents of the two buffers. `SmolTcp.Documented` lists, one field per
method, the documented behaviour of smoltcp 0.7 in terms of views; it is the
only thing the proofs know about the socket.

A `Segment` is a segment as a socket takes it, after the acceptability checks
and the reassembly: the octets it adds in order, and how much of what was sent
it acknowledges for the first time. A segment the socket drops is no segment.
-/

namespace RustyHermit.Smoltcp

/-- `TcpState`. -/
inductive TcpState where
  | closed | listen | synSent | synReceived | established | finWait1 | finWait2
  | closeWait | closing | lastAck | timeWait
deriving DecidableEq, Repr

/-- The variants of `smoltcp::Error` the code deals with. -/
inductive Error where
  | illegal | unaddressable
deriving DecidableEq, Repr

/-- `smoltcp::wire::IpAddress`. -/
inductive IpAddress where
  | unspecified
  | ipv4 (addr : BitVec 32)
  | ipv6 (addr : BitVec 128)
deriving DecidableEq, Repr

/-- `IpAddress::is_unspecified`. -/
def IpAddress.isUnspecified : IpAddress → Bool
  | .unspecified => true
  | .ipv4 addr => addr == 0
  | .ipv6 addr => addr == 0

/-- `smoltcp::wire::IpEndpoint`. -/
structure IpEndpoint where
  addr : IpAddress
  port : UInt16
deriving DecidableEq, Repr

namespace IpEndpoint

/-- `IpEndpoint::default`. -/
def unspecified : IpEndpoint := ⟨.unspecified, 0⟩

/-- `IpEndpoint::is_specified`. -/
def isSpecified (e : IpEndpoint) : Bool :=
  !e.addr.isUnspecified && e.port != 0

end IpEndpoint

/-- `TcpControl`, with `Psh` counted as `None`. -/
inductive TcpControl where
  | none | syn | fin | rst
deriving DecidableEq, Repr

/-- A segment as a socket takes it. -/
structure Segment where
  src : IpEndpoint
  control : TcpControl
  /-- it carries an acknowledgement -/
  ack : Bool
  /-- octets of the send buffer it acknowledges for the first time -/
  ackLen : Nat
  /-- it acknowledges the socket's own FIN -/
  ackFin : Bool
  /-- octets it adds to the received stream, in order -/
  payload : List UInt8
  /-- the interface passes on segments from a unicast address and a port only -/
  src_specified : src.isSpecified = true

/-! ## The transitions of the state -/

namespace TcpState

/-- `TcpSocket::close`. -/
def close : TcpState → TcpState
  | .listen | .synSent => .closed
  | .synReceived | .established => .finWait1
  | .closeWait => .lastAck
  | st => st

/-- The state after a segment that carries an acknowledgement and is no reset. -/
def advance (st : TcpState) (control : TcpControl) (ackFin : Bool) : TcpState :=
  match st, control with
  | .synSent, .syn => .established
  | .synReceived, .none => .established
  | .synReceived, .fin => .closeWait
  | .established, .fin => .closeWait
  | .finWait1, .none => if ackFin then .finWait2 else .finWait1
  | .finWait1, .fin => if ackFin then .timeWait else .closing
  | .finWait2, .fin => .timeWait
  | .closing, .none => if ackFin then .timeWait else .closing
  | .lastAck, .none => if ackFin then .closed else .lastAck
  | st, _ => st

/-- The state after a segment (`TcpSocket::process`). A reset takes a socket
that was listening back to `Listen` and closes any other. -/
def process (st : TcpState) (g : Segment) : TcpState :=
  match st, g.control with
  | .closed, _ => .closed
  | .listen, .syn => if g.ack then .listen else .synReceived
  | .listen, _ => .listen
  | .synReceived, .rst => .listen
  | _, .rst => .closed
  | st, control => if g.ack then st.advance control g.ackFin else st

/-- The states in which octets from the peer are taken. -/
def receives : TcpState → Bool
  | .synReceived | .established | .finWait1 | .finWait2 => true
  | _ => false

/-- The states in which the local send half has been closed. -/
def sendClosed : TcpState → Bool
  | .finWait1 | .finWait2 | .closing | .timeWait | .lastAck | .closed => true
  | _ => false

/-- What a segment can do to the state. -/
inductive Step (g : Segment) : TcpState → TcpState → Prop where
  | same (st : TcpState) : Step g st st
  | syn : g.control = .syn → Step g .listen .synReceived
  | connected : g.control = .syn → Step g .synSent .established
  | accepted : g.control = .none → Step g .synReceived .established
  | acceptedFin : g.control = .fin → Step g .synReceived .closeWait
  | refused : g.control = .rst → Step g .synReceived .listen
  | reset {st : TcpState} : g.control = .rst → st ≠ .listen → st ≠ .synReceived →
      st ≠ .closed → Step g st .closed
  | fin : g.control = .fin → Step g .established .closeWait
  | finAcked : g.control = .none → Step g .finWait1 .finWait2
  | finCrossed : g.control = .fin → Step g .finWait1 .closing
  | finBoth : g.control = .fin → Step g .finWait1 .timeWait
  | finAfter : g.control = .fin → Step g .finWait2 .timeWait
  | closingAcked : g.control = .none → Step g .closing .timeWait
  | lastAcked : g.control = .none → Step g .lastAck .closed

theorem advance_step (st : TcpState) (g : Segment) :
    Step g st (st.advance g.control g.ackFin) := by
  unfold advance
  split
  case h_1 h => exact .connected h
  case h_2 h => exact .accepted h
  case h_3 h => exact .acceptedFin h
  case h_4 h => exact .fin h
  case h_5 h =>
    split
    · exact .finAcked h
    · exact .same _
  case h_6 h =>
    split
    · exact .finBoth h
    · exact .finCrossed h
  case h_7 h => exact .finAfter h
  case h_8 h =>
    split
    · exact .closingAcked h
    · exact .same _
  case h_9 h =>
    split
    · exact .lastAcked h
    · exact .same _
  case h_10 => exact .same _

/-- **Inversion**: a segment moves the state along `Step`. -/
theorem process_step (st : TcpState) (g : Segment) : Step g st (st.process g) := by
  unfold process
  split
  case h_1 => exact .same _
  case h_2 h =>
    split
    · exact .same _
    · exact .syn h
  case h_3 => exact .same _
  case h_4 h => exact .refused h
  case h_5 hclosed hlisten hrecv h => exact .reset h hlisten hrecv hclosed
  case h_6 =>
    split
    · exact advance_step _ _
    · exact .same _

/-- `close` closes the send half, whatever the state. -/
theorem sendClosed_close (st : TcpState) : st.close.sendClosed = true := by
  cases st <;> rfl

/-- Only a socket whose peer has closed is in `CloseWait` or `LastAck` after
`close`. -/
theorem close_waits {st : TcpState} (h : st.close = .closeWait ∨ st.close = .lastAck) :
    st = .closeWait ∨ st = .lastAck := by
  cases st <;> simp [close] at h ⊢

/-- A closed send half stays closed. -/
theorem sendClosed_process {st : TcpState} (h : st.sendClosed = true) (g : Segment) :
    (st.process g).sendClosed = true := by
  have hstep := process_step st g
  generalize st.process g = st' at hstep
  cases hstep <;> first | exact h | rfl

end TcpState

/-! ## Views -/

/-- What a caller can observe of a socket. -/
structure TcpView where
  state : TcpState
  remote : IpEndpoint
  /-- octets received and not yet read -/
  rx : List UInt8
  /-- octets accepted for sending and not yet acknowledged -/
  tx : List UInt8
  /-- the size of the transmit buffer -/
  txCapacity : Nat
deriving DecidableEq, Repr

namespace TcpView

/-- `is_active`. -/
def isActive (v : TcpView) : Bool :=
  match v.state with
  | .closed | .timeWait | .listen => false
  | _ => true

/-- `may_recv`. -/
def mayRecv (v : TcpView) : Bool :=
  match v.state with
  | .established | .finWait1 | .finWait2 => true
  | _ => !v.rx.isEmpty

/-- `can_recv`. -/
def canRecv (v : TcpView) : Bool :=
  v.mayRecv && !v.rx.isEmpty

/-- `may_send`. -/
def maySend (v : TcpView) : Bool :=
  match v.state with
  | .established | .closeWait => true
  | _ => false

/-- Free space in the transmit buffer. -/
def room (v : TcpView) : Nat :=
  v.txCapacity - v.tx.length

/-- `can_send`. -/
def canSend (v : TcpView) : Bool :=
  v.maySend && decide (0 < v.room)

/-- There is something to receive exactly when the buffer is not empty. -/
theorem canRecv_iff (v : TcpView) : v.canRecv = true ↔ v.rx ≠ [] := by
  unfold canRecv mayRecv
  cases v.state <;> cases v.rx <;> simp

/-- Buffered octets may still be received. -/
theorem mayRecv_of_rx {v : TcpView} (h : v.rx ≠ []) : v.mayRecv = true :=
  (Bool.and_eq_true_iff.mp (v.canRecv_iff.mpr h)).1

/-- Nothing can be sent once the send half is closed. -/
theorem maySend_of_sendClosed {v : TcpView} (h : v.state.sendClosed = true) :
    v.maySend = false := by
  unfold maySend
  revert h
  cases v.state <;> simp [TcpState.sendClosed]

/-- `may_recv` and `can_recv` read the state and the receive buffer. -/
theorem recv_congr {v v' : TcpView} (hst : v'.state = v.state) (hrx : v'.rx = v.rx) :
    v'.mayRecv = v.mayRecv ∧ v'.canRecv = v.canRecv := by
  unfold canRecv mayRecv
  rw [hst, hrx]
  exact ⟨rfl, rfl⟩

/-- `can_send` reads the state and the transmit buffer. -/
theorem canSend_congr {v v' : TcpView} (hst : v'.state = v.state) (htx : v'.tx = v.tx)
    (hcap : v'.txCapacity = v.txCapacity) : v'.canSend = v.canSend := by
  unfold canSend maySend room
  rw [hst, htx, hcap]

/-- Octets that arrive do not end what may be received. -/
theorem mayRecv_append {v v' : TcpView} {bytes : List UInt8} (h : v.mayRecv = true)
    (hst : v'.state = v.state) (hrx : v'.rx = v.rx ++ bytes) : v'.mayRecv = true := by
  by_cases hne : v.rx = []
  · -- so it is the state that allows it
    unfold mayRecv at h ⊢
    rw [hst]
    rw [hne] at h
    split at h
    · rfl
    · rfl
    · rfl
    · cases h
  · exact mayRecv_of_rx (by rw [hrx]; exact List.append_ne_nil_of_left_ne_nil hne _)

/-- A socket that has just been connected to `remote`, or set to listen. -/
def opened (v : TcpView) (state : TcpState) (remote : IpEndpoint) : TcpView :=
  { v with state, remote, rx := [], tx := [] }

/-- `close`. -/
def close (v : TcpView) : TcpView :=
  { v with state := v.state.close }

/-- The octets a segment adds to the received stream. -/
def taken (v : TcpView) (g : Segment) : List UInt8 :=
  match g.control with
  | .none | .fin => if v.state.receives && g.ack then g.payload else []
  | _ => []

/-- The octets of the send buffer a segment acknowledges; a socket that is not
open takes no acknowledgement. -/
def acked (v : TcpView) (g : Segment) : List UInt8 :=
  match v.state, g.control with
  | .closed, _ | .listen, _ => []
  | _, .none | _, .fin => if g.ack then v.tx.take g.ackLen else []
  | _, _ => []

/-- The remote endpoint after a segment: set by the SYN that opens a connection
on a listening socket, cleared by a reset and by the end of `LastAck`. -/
def nextRemote (v : TcpView) (g : Segment) : IpEndpoint :=
  match v.state, v.state.process g with
  | .listen, .synReceived => g.src
  | .listen, _ => v.remote
  | .closed, _ => v.remote
  | _, .closed | _, .listen => .unspecified
  | _, _ => v.remote

/-- `process`. -/
def process (v : TcpView) (g : Segment) : TcpView :=
  { v with
    state := v.state.process g
    remote := v.nextRemote g
    rx := v.rx ++ v.taken g
    tx := v.tx.drop (v.acked g).length }

/-- The end of `TimeWait`, which resets the socket. -/
def expire (v : TcpView) : TcpView :=
  match v.state with
  | .timeWait => v.opened .closed .unspecified
  | _ => v

end TcpView

/-! ## The parameter -/

/-- The operations of a `TcpSocket`; `W` is the type of wakers. -/
structure SmolTcp (W : Type) where
  Socket : Type
  /-- `TcpSocket::new`, given the sizes of the receive and transmit buffers -/
  new : Nat → Nat → Socket
  /-- what can be observed of the socket -/
  view : Socket → TcpView
  state : Socket → TcpState
  remoteEndpoint : Socket → IpEndpoint
  isActive : Socket → Bool
  mayRecv : Socket → Bool
  canRecv : Socket → Bool
  canSend : Socket → Bool
  sendQueue : Socket → Nat
  connect : Socket → IpEndpoint → UInt16 → Except Error Unit × Socket
  listen : Socket → UInt16 → Except Error Unit × Socket
  recvSlice : Socket → Nat → Except Error (List UInt8) × Socket
  sendSlice : Socket → List UInt8 → Except Error Nat × Socket
  close : Socket → Socket
  setKeepAlive : Socket → Option UInt64 → Socket
  registerRecvWaker : Socket → W → Socket
  registerSendWaker : Socket → W → Socket
  /-- a segment taken by the socket during `iface.poll` -/
  process : Socket → Segment → Socket
  /-- the end of `TimeWait`, noticed during `iface.poll` -/
  expire : Socket → Socket
  /-- `IpAddress::from_str` -/
  fromStr : String → Option IpAddress

/-- The documented behaviour of smoltcp 0.7 the code relies on. -/
class SmolTcp.Documented {W : Type} (tcp : SmolTcp W) : Prop where
  new_view : ∀ rx tx, tcp.view (tcp.new rx tx) = ⟨.closed, .unspecified, [], [], tx⟩
  state_eq : ∀ s, tcp.state s = (tcp.view s).state
  remoteEndpoint_eq : ∀ s, tcp.remoteEndpoint s = (tcp.view s).remote
  isActive_eq : ∀ s, tcp.isActive s = (tcp.view s).isActive
  mayRecv_eq : ∀ s, tcp.mayRecv s = (tcp.view s).mayRecv
  canRecv_eq : ∀ s, tcp.canRecv s = (tcp.view s).canRecv
  canSend_eq : ∀ s, tcp.canSend s = (tcp.view s).canSend
  sendQueue_eq : ∀ s, tcp.sendQueue s = (tcp.view s).tx.length
  /-- an unspecified remote endpoint is refused -/
  connect_specified : ∀ s remote port,
    (tcp.connect s remote port).1 = .ok () → remote.isSpecified = true
  connect_ok : ∀ s remote port, (tcp.connect s remote port).1 = .ok () →
    tcp.view (tcp.connect s remote port).2 = (tcp.view s).opened .synSent remote
  connect_error : ∀ s remote port e, (tcp.connect s remote port).1 = .error e →
    tcp.view (tcp.connect s remote port).2 = tcp.view s
  listen_ok : ∀ s port, (tcp.listen s port).1 = .ok () →
    tcp.view (tcp.listen s port).2 = (tcp.view s).opened .listen .unspecified
  listen_error : ∀ s port e, (tcp.listen s port).1 = .error e →
    tcp.view (tcp.listen s port).2 = tcp.view s
  /-- `recv_slice` dequeues in order -/
  recvSlice_eq : ∀ s n, (tcp.view s).canRecv = true →
    (tcp.recvSlice s n).1 = .ok ((tcp.view s).rx.take n) ∧
      tcp.view (tcp.recvSlice s n).2 =
        { tcp.view s with rx := (tcp.view s).rx.drop n }
  /-- `send_slice` enqueues what fits -/
  sendSlice_eq : ∀ s data, (tcp.view s).canSend = true →
    (tcp.sendSlice s data).1 = .ok (min data.length (tcp.view s).room) ∧
      tcp.view (tcp.sendSlice s data).2 =
        { tcp.view s with tx := (tcp.view s).tx ++ data.take (tcp.view s).room }
  close_view : ∀ s, tcp.view (tcp.close s) = (tcp.view s).close
  setKeepAlive_view : ∀ s d, tcp.view (tcp.setKeepAlive s d) = tcp.view s
  registerRecvWaker_view : ∀ s w, tcp.view (tcp.registerRecvWaker s w) = tcp.view s
  registerSendWaker_view : ∀ s w, tcp.view (tcp.registerSendWaker s w) = tcp.view s
  process_view : ∀ s g, tcp.view (tcp.process s g) = (tcp.view s).process g
  expire_view : ∀ s, tcp.view (tcp.expire s) = (tcp.view s).expire

attribute [simp] SmolTcp.Documented.new_view SmolTcp.Documented.state_eq
  SmolTcp.Documented.remoteEndpoint_eq SmolTcp.Documented.isActive_eq
  SmolTcp.Documented.mayRecv_eq SmolTcp.Documented.canRecv_eq
  SmolTcp.Documented.canSend_eq SmolTcp.Documented.sendQueue_eq
  SmolTcp.Documented.close_view SmolTcp.Documented.setKeepAlive_view
  SmolTcp.Documented.registerRecvWaker_view
  SmolTcp.Documented.registerSendWaker_view SmolTcp.Documented.process_view
  SmolTcp.Documented.expire_view

end RustyHermit.Smoltcp
