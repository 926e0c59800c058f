import RustyHermit.Executor.Drivers
import RustyHermit.Smoltcp.Socket

/-!
# `AsyncSocket` (`mod.rs`): connect, accept, read, write and close

An `async fn` of `AsyncSocket` is a sequence of critical sections of the NIC
lock: one for each closure passed to `AsyncSocket::with`, and one more at the
end of `accept`. Between two of them other threads run. Every closure is a
function here, under the name of its `async fn`; a `poll_fn` closure takes the
task's waker `cx` and returns a `Poll`.

`Future` is what is left of such a function to execute, and `Future.step`
executes its next critical section, after which the future is `Pending`, ready,
or goes on with its next section in the same poll.

- `Future.Step`: everything such a step can be, in terms of the socket's view,
  when the socket behaves as documented. Proofs about the futures case on it.
- `Future.step_spec`: `Future.step` is such a step.
-/

namespace RustyHermit.Net

open RustyHermit.Smoltcp RustyHermit.Executor

/-- `SocketHandle`. -/
abbrev Handle := Nat

/-- `DEFAULT_KEEP_ALIVE_INTERVAL`, in milliseconds. -/
def defaultKeepAliveInterval : UInt64 := 75000

/-- `FinWait1 | FinWait2 | Closed | Closing | TimeWait`, the states on which
`read`, `write` and `close` give up. -/
def ended : TcpState → Bool
  | .finWait1 | .finWait2 | .closed | .closing | .timeWait => true
  | _ => false

/-- In these states the send half is closed. -/
theorem sendClosed_of_ended {st : TcpState} (h : ended st = true) :
    st.sendClosed = true := by
  cases st <;> first | rfl | cases h

namespace AsyncSocket

variable {W : Type} (tcp : SmolTcp W)

/-- `NetworkInterface::create_handle`: the socket it adds. -/
def createHandle : tcp.Socket :=
  tcp.new 65535 65535

/-- The address `connect` is given. -/
def connectAddress (ip : ByteArray) : Except Error IpAddress :=
  match String.fromUTF8? ip with
  | none => .error .illegal
  | some s =>
    match tcp.fromStr s with
    | none => .error .illegal
    | some address => .ok address

/-- `connect`, first closure. -/
def connectStart (address : IpAddress) (port localPort : UInt16) (s : tcp.Socket) :
    Except Error Unit × tcp.Socket :=
  let (res, s) := tcp.connect s ⟨address, port⟩ localPort
  (res.mapError fun _ => .illegal, s)

/-- `connect`, the closure of its `poll_fn`. -/
def connectPoll (self : Handle) (cx : W) (s : tcp.Socket) :
    Poll (Except Error Handle) × tcp.Socket :=
  match tcp.state s with
  | .closed | .timeWait => (.ready (.error .unaddressable), s)
  | .listen => (.ready (.error .illegal), s)
  | .synSent | .synReceived => (.pending, tcp.registerSendWaker s cx)
  | _ => (.ready (.ok self), s)

/-- `accept`, first closure. -/
def acceptStart (port : UInt16) (s : tcp.Socket) : Except Error Unit × tcp.Socket :=
  let (res, s) := tcp.listen s port
  (res.mapError fun _ => .illegal, s)

/-- `accept`, the closure of its `poll_fn`. -/
def acceptPoll (cx : W) (s : tcp.Socket) : Poll (Except Error Unit) × tcp.Socket :=
  if tcp.isActive s then (.ready (.ok ()), s)
  else
    match tcp.state s with
    | .closed | .closing | .finWait1 | .finWait2 => (.ready (.error .illegal), s)
    | _ => (.pending, tcp.registerRecvWaker s cx)

/-- `accept`, its last critical section. -/
def acceptPeer (s : tcp.Socket) : (IpAddress × UInt16) × tcp.Socket :=
  let s := tcp.setKeepAlive s (some defaultKeepAliveInterval)
  let endpoint := tcp.remoteEndpoint s
  ((endpoint.addr, endpoint.port), s)

/-- `read` into a buffer of `len` octets; the result is what it put there. -/
def read (len : Nat) (cx : W) (s : tcp.Socket) :
    Poll (Except Error (List UInt8)) × tcp.Socket :=
  if ended (tcp.state s) then (.ready (.error .illegal), s)
  else if tcp.canRecv s then
    let (res, s) := tcp.recvSlice s len
    (.ready (res.mapError fun _ => .illegal), s)
  else if !tcp.mayRecv s then (.ready (.ok []), s)
  else (.pending, tcp.registerRecvWaker s cx)

/-- `write`. -/
def write (buffer : List UInt8) (cx : W) (s : tcp.Socket) :
    Poll (Except Error Nat) × tcp.Socket :=
  if ended (tcp.state s) then (.ready (.error .illegal), s)
  else if !tcp.mayRecv s then (.ready (.ok 0), s)
  else if tcp.canSend s then
    let (res, s) := tcp.sendSlice s buffer
    (.ready (res.mapError fun _ => .illegal), s)
  else (.pending, tcp.registerSendWaker s cx)

/-- `close`, first `poll_fn`: wait for the send queue to empty, then close. -/
def closeFlush (cx : W) (s : tcp.Socket) : Poll (Except Error Unit) × tcp.Socket :=
  if ended (tcp.state s) then (.ready (.error .illegal), s)
  else if tcp.sendQueue s > 0 then (.pending, tcp.registerSendWaker s cx)
  else (.ready (.ok ()), tcp.close s)

/-- `close`, second `poll_fn`. -/
def closeWait (cx : W) (s : tcp.Socket) : Poll (Except Error Unit) × tcp.Socket :=
  if ended (tcp.state s) then (.ready (.ok ()), s)
  else (.pending, tcp.registerSendWaker s cx)

end AsyncSocket

/-- What a function of `AsyncSocket` returns. -/
inductive Output where
  | handle (handle : Handle)
  | peer (addr : IpAddress) (port : UInt16)
  | bytes (bytes : List UInt8)
  | count (n : Nat)
  | unit
deriving DecidableEq

/-- What is left to execute of a function of `AsyncSocket`. -/
inductive Future where
  | connect (ip : ByteArray) (port : UInt16)
  | connectPoll
  | accept (port : UInt16)
  | acceptPoll
  | acceptPeer
  | read (len : Nat)
  | write (buffer : List UInt8)
  | close
  | closeWait

/-- How a critical section leaves the future. -/
inductive Progress where
  /-- it goes on with its next section, in the same poll -/
  | next (fut : Future)
  | pending
  | ready (res : Except Error Output)

/-- `.await?`: an error ends the function, a value is passed on. -/
def Progress.await {α : Type} (k : α → Progress) :
    Poll (Except Error α) → Progress
  | .pending => .pending
  | .ready (.error e) => .ready (.error e)
  | .ready (.ok a) => k a

namespace Future

variable {W : Type} (tcp : SmolTcp W)

/-- The next critical section goes through `AsyncSocket::with`. A `connect`
whose address does not parse has none, and `accept` ends without it. -/
def usesWith : Future → Bool
  | .connect ip _ => (AsyncSocket.connectAddress tcp ip).isOk
  | .acceptPeer => false
  | _ => true

/-- The next critical section of a future of the socket `self`; `localPort` is
the value `LOCAL_ENDPOINT` has when `connect` takes it. -/
def step (self : Handle) (cx : W) (localPort : UInt16) (s : tcp.Socket) :
    Future → Progress × tcp.Socket
  | .connect ip port =>
    match AsyncSocket.connectAddress tcp ip with
    | .error e => (.ready (.error e), s)
    | .ok address =>
      let (res, s) := AsyncSocket.connectStart tcp address port localPort s
      (Progress.await (fun _ => .next .connectPoll) (.ready res), s)
  | .connectPoll =>
    let (poll, s) := AsyncSocket.connectPoll tcp self cx s
    (Progress.await (fun handle => .ready (.ok (.handle handle))) poll, s)
  | .accept port =>
    let (res, s) := AsyncSocket.acceptStart tcp port s
    (Progress.await (fun _ => .next .acceptPoll) (.ready res), s)
  | .acceptPoll =>
    let (poll, s) := AsyncSocket.acceptPoll tcp cx s
    (Progress.await (fun _ => .next .acceptPeer) poll, s)
  | .acceptPeer =>
    let ((addr, port), s) := AsyncSocket.acceptPeer tcp s
    (.ready (.ok (.peer addr port)), s)
  | .read len =>
    let (poll, s) := AsyncSocket.read tcp len cx s
    (Progress.await (fun bytes => .ready (.ok (.bytes bytes))) poll, s)
  | .write buffer =>
    let (poll, s) := AsyncSocket.write tcp buffer cx s
    (Progress.await (fun n => .ready (.ok (.count n))) poll, s)
  | .close =>
    let (poll, s) := AsyncSocket.closeFlush tcp cx s
    (Progress.await (fun _ => .next .closeWait) poll, s)
  | .closeWait =>
    let (poll, s) := AsyncSocket.closeWait tcp cx s
    (Progress.await (fun _ => .ready (.ok .unit)) poll, s)

/-- `connect` and `accept`, before their first section. -/
def opens : Future → Bool
  | .connect _ _ | .accept _ => true
  | _ => false

/-- `read`, `write` and `close`, before their first section. -/
def uses : Future → Bool
  | .read _ | .write _ | .close => true
  | _ => false

/-- What is left of a future. -/
def rest (fut : Future) : Progress → Option Future
  | .next fut' => some fut'
  | .pending => some fut
  | .ready _ => none

/-! ## What a step can be -/

/-- What one critical section can do, with its guard: the future, how it goes
on, and the socket's view before and after. -/
inductive Step (self : Handle) (v : TcpView) : Future → Progress → TcpView → Prop where
  | connectError {ip : ByteArray} {port : UInt16} (e : Error) :
      Step self v (.connect ip port) (.ready (.error e)) v
  | connectStart {ip : ByteArray} {port : UInt16} (remote : IpEndpoint) :
      remote.isSpecified = true →
      Step self v (.connect ip port) (.next .connectPoll) (v.opened .synSent remote)
  | connectRefused (e : Error) :
      v.state = .closed ∨ v.state = .timeWait ∨ v.state = .listen →
      Step self v .connectPoll (.ready (.error e)) v
  | connectPending : v.state = .synSent ∨ v.state = .synReceived →
      Step self v .connectPoll .pending v
  | connected : v.state ≠ .closed → v.state ≠ .timeWait → v.state ≠ .listen →
      v.state ≠ .synSent → v.state ≠ .synReceived →
      Step self v .connectPoll (.ready (.ok (.handle self))) v
  | acceptError {port : UInt16} (e : Error) :
      Step self v (.accept port) (.ready (.error e)) v
  | acceptStart {port : UInt16} :
      Step self v (.accept port) (.next .acceptPoll) (v.opened .listen .unspecified)
  | acceptActive : v.isActive = true → Step self v .acceptPoll (.next .acceptPeer) v
  | acceptClosed (e : Error) : v.state = .closed →
      Step self v .acceptPoll (.ready (.error e)) v
  | acceptPending : v.state = .listen ∨ v.state = .timeWait →
      Step self v .acceptPoll .pending v
  | accepted :
      Step self v .acceptPeer (.ready (.ok (.peer v.remote.addr v.remote.port))) v
  | readError {len : Nat} (e : Error) : ended v.state = true →
      Step self v (.read len) (.ready (.error e)) v
  | readBytes {len : Nat} : ended v.state = false → v.canRecv = true →
      Step self v (.read len) (.ready (.ok (.bytes (v.rx.take len))))
        { v with rx := v.rx.drop len }
  | readEnd {len : Nat} : ended v.state = false → v.mayRecv = false →
      Step self v (.read len) (.ready (.ok (.bytes []))) v
  | readPending {len : Nat} : ended v.state = false → v.mayRecv = true →
      v.canRecv = false → Step self v (.read len) .pending v
  | writeError {buffer : List UInt8} (e : Error) : ended v.state = true →
      Step self v (.write buffer) (.ready (.error e)) v
  | writeEnd {buffer : List UInt8} : ended v.state = false → v.mayRecv = false →
      Step self v (.write buffer) (.ready (.ok (.count 0))) v
  | writeBytes {buffer : List UInt8} : ended v.state = false → v.mayRecv = true →
      v.canSend = true →
      Step self v (.write buffer) (.ready (.ok (.count (min buffer.length v.room))))
        { v with tx := v.tx ++ buffer.take v.room }
  | writePending {buffer : List UInt8} : ended v.state = false → v.mayRecv = true →
      v.canSend = false → Step self v (.write buffer) .pending v
  | closeError (e : Error) : ended v.state = true →
      Step self v .close (.ready (.error e)) v
  | closePending : ended v.state = false → v.tx ≠ [] → Step self v .close .pending v
  | close : ended v.state = false → v.tx = [] →
      Step self v .close (.next .closeWait) v.close
  | closed : ended v.state = true → Step self v .closeWait (.ready (.ok .unit)) v
  | closeWaiting : ended v.state = false → Step self v .closeWait .pending v

variable {tcp} [tcp.Documented]

/-- A step of `connect`, first section. -/
theorem step_connect (self : Handle) (cx : W) (localPort : UInt16) (s : tcp.Socket)
    (ip : ByteArray) (port : UInt16) :
    Step self (tcp.view s) (.connect ip port)
      (step tcp self cx localPort s (.connect ip port)).1
      (tcp.view (step tcp self cx localPort s (.connect ip port)).2) := by
  simp only [step]
  split
  · exact .connectError _
  · rename_i address _
    cases h : (tcp.connect s ⟨address, port⟩ localPort).1 with
    | error e =>
      simp only [AsyncSocket.connectStart, h, Progress.await,
        SmolTcp.Documented.connect_error s _ _ e h]
      exact .connectError _
    | ok =>
      simp only [AsyncSocket.connectStart, h, Progress.await,
        SmolTcp.Documented.connect_ok s _ _ h]
      exact .connectStart _ (SmolTcp.Documented.connect_specified s _ _ h)

/-- A step of `accept`, first section. -/
theorem step_accept (self : Handle) (cx : W) (localPort : UInt16) (s : tcp.Socket)
    (port : UInt16) :
    Step self (tcp.view s) (.accept port)
      (step tcp self cx localPort s (.accept port)).1
      (tcp.view (step tcp self cx localPort s (.accept port)).2) := by
  cases h : (tcp.listen s port).1 with
  | error e =>
    simp only [step, AsyncSocket.acceptStart, h, Progress.await,
      SmolTcp.Documented.listen_error s _ e h]
    exact .acceptError _
  | ok =>
    simp only [step, AsyncSocket.acceptStart, h, Progress.await,
      SmolTcp.Documented.listen_ok s _ h]
    exact .acceptStart

/-- The `poll_fn` of `connect`. -/
theorem step_connectPoll (self : Handle) (cx : W) (localPort : UInt16)
    (s : tcp.Socket) :
    Step self (tcp.view s) .connectPoll
      (step tcp self cx localPort s .connectPoll).1
      (tcp.view (step tcp self cx localPort s .connectPoll).2) := by
  simp only [step, AsyncSocket.connectPoll, SmolTcp.Documented.state_eq]
  cases h : (tcp.view s).state <;>
    simp only [Progress.await, SmolTcp.Documented.registerSendWaker_view]
  case closed => exact .connectRefused _ (.inl h)
  case timeWait => exact .connectRefused _ (.inr (.inl h))
  case listen => exact .connectRefused _ (.inr (.inr h))
  case synSent => exact .connectPending (.inl h)
  case synReceived => exact .connectPending (.inr h)
  -- all later states are those of a connection
  all_goals
    refine .connected ?_ ?_ ?_ ?_ ?_ <;> rw [h] <;> nofun

/-- The `poll_fn` of `accept`: of the states it lists, only `Closed` is not
active. -/
theorem step_acceptPoll (self : Handle) (cx : W) (localPort : UInt16)
    (s : tcp.Socket) :
    Step self (tcp.view s) .acceptPoll
      (step tcp self cx localPort s .acceptPoll).1
      (tcp.view (step tcp self cx localPort s .acceptPoll).2) := by
  simp only [step, AsyncSocket.acceptPoll, SmolTcp.Documented.isActive_eq,
    SmolTcp.Documented.state_eq]
  cases ha : (tcp.view s).isActive with
  | true => exact .acceptActive ha
  | false =>
    simp only [TcpView.isActive] at ha
    cases h : (tcp.view s).state <;>
      simp only [h, Bool.false_eq_true, if_false, Progress.await,
        SmolTcp.Documented.registerRecvWaker_view] at ha ⊢
    case closed => exact .acceptClosed _ h
    case listen => exact .acceptPending (.inl h)
    case timeWait => exact .acceptPending (.inr h)
    all_goals cases ha

/-- A poll of `read`. -/
theorem step_read (self : Handle) (cx : W) (localPort : UInt16) (s : tcp.Socket)
    (len : Nat) :
    Step self (tcp.view s) (.read len)
      (step tcp self cx localPort s (.read len)).1
      (tcp.view (step tcp self cx localPort s (.read len)).2) := by
  simp only [step, AsyncSocket.read, SmolTcp.Documented.state_eq,
    SmolTcp.Documented.canRecv_eq, SmolTcp.Documented.mayRecv_eq]
  cases hended : ended (tcp.view s).state with
  | true => exact .readError _ hended
  | false =>
    cases hcan : (tcp.view s).canRecv with
    | true =>
      obtain ⟨hres, hview⟩ := SmolTcp.Documented.recvSlice_eq s len hcan
      simp only [Bool.false_eq_true, if_false, if_true, hres, hview,
        Progress.await]
      exact .readBytes hended hcan
    | false =>
      cases hmay : (tcp.view s).mayRecv with
      | true =>
        simp only [Bool.not_true, Bool.false_eq_true, if_false, Progress.await,
          SmolTcp.Documented.registerRecvWaker_view]
        exact .readPending hended hmay hcan
      | false => exact .readEnd hended hmay

/-- A poll of `write`. -/
theorem step_write (self : Handle) (cx : W) (localPort : UInt16) (s : tcp.Socket)
    (buffer : List UInt8) :
    Step self (tcp.view s) (.write buffer)
      (step tcp self cx localPort s (.write buffer)).1
      (tcp.view (step tcp self cx localPort s (.write buffer)).2) := by
  simp only [step, AsyncSocket.write, SmolTcp.Documented.state_eq,
    SmolTcp.Documented.canSend_eq, SmolTcp.Documented.mayRecv_eq]
  cases hended : ended (tcp.view s).state with
  | true => exact .writeError _ hended
  | false =>
    cases hmay : (tcp.view s).mayRecv with
    | false => exact .writeEnd hended hmay
    | true =>
      cases hcan : (tcp.view s).canSend with
      | true =>
        obtain ⟨hres, hview⟩ := SmolTcp.Documented.sendSlice_eq s buffer hcan
        simp only [Bool.not_true, Bool.false_eq_true, if_false, if_true, hres, hview,
          Progress.await]
        exact .writeBytes hended hmay hcan
      | false =>
        simp only [Bool.not_true, Bool.false_eq_true, if_false, Progress.await,
          SmolTcp.Documented.registerSendWaker_view]
        exact .writePending hended hmay hcan

/-- The first `poll_fn` of `close`. -/
theorem step_close (self : Handle) (cx : W) (localPort : UInt16) (s : tcp.Socket) :
    Step self (tcp.view s) .close (step tcp self cx localPort s .close).1
      (tcp.view (step tcp self cx localPort s .close).2) := by
  simp only [step, AsyncSocket.closeFlush, SmolTcp.Documented.state_eq,
    SmolTcp.Documented.sendQueue_eq]
  cases hended : ended (tcp.view s).state with
  | true => exact .closeError _ hended
  | false =>
    by_cases htx : (tcp.view s).tx = []
    · simp only [htx, List.length_nil, gt_iff_lt, Nat.lt_irrefl, Bool.false_eq_true,
        if_false, Progress.await, SmolTcp.Documented.close_view]
      exact .close hended htx
    · simp only [gt_iff_lt, List.length_pos_iff.mpr htx, Bool.false_eq_true,
        if_false, if_true, Progress.await, SmolTcp.Documented.registerSendWaker_view]
      exact .closePending hended htx

/-- The second `poll_fn` of `close`. -/
theorem step_closeWait (self : Handle) (cx : W) (localPort : UInt16)
    (s : tcp.Socket) :
    Step self (tcp.view s) .closeWait (step tcp self cx localPort s .closeWait).1
      (tcp.view (step tcp self cx localPort s .closeWait).2) := by
  simp only [step, AsyncSocket.closeWait, SmolTcp.Documented.state_eq]
  cases hended : ended (tcp.view s).state with
  | true => exact .closed hended
  | false =>
    simp only [Bool.false_eq_true, if_false, Progress.await,
      SmolTcp.Documented.registerSendWaker_view]
    exact .closeWaiting hended

/-- **Inversion**: on a socket that behaves as documented, `Future.step` takes
only the steps of the relation. -/
theorem step_spec (self : Handle) (cx : W) (localPort : UInt16) (s : tcp.Socket)
    (fut : Future) :
    Step self (tcp.view s) fut (step tcp self cx localPort s fut).1
      (tcp.view (step tcp self cx localPort s fut).2) := by
  cases fut with
  | connect ip port => exact step_connect ..
  | connectPoll => exact step_connectPoll ..
  | accept port => exact step_accept ..
  | acceptPoll => exact step_acceptPoll ..
  | acceptPeer =>
    simp only [step, AsyncSocket.acceptPeer, SmolTcp.Documented.remoteEndpoint_eq,
      SmolTcp.Documented.setKeepAlive_view]
    exact .accepted
  | read len => exact step_read ..
  | write buffer => exact step_write ..
  | close => exact step_close ..
  | closeWait => exact step_closeWait ..

end Future

end RustyHermit.Net
