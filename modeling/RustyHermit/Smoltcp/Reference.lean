import RustyHermit.Smoltcp.Socket

/-!
# A socket that is what can be observed of it

`reference` instantiates the parameter `SmolTcp` by the views themselves, so
that runs of the machines can be executed. It behaves as documented
(`SmolTcp.Documented`), which also shows the documented laws consistent.
Addresses are parsed in the dotted IPv4 form only.
-/

namespace RustyHermit.Smoltcp

/-- One octet in decimal. -/
def octetFromDigits (cs : List Char) : Option (BitVec 8) :=
  let n := cs.foldl (fun n c => 10 * n + (c.toNat - '0'.toNat)) 0
  if cs ≠ [] ∧ cs.length ≤ 3 ∧ cs.all Char.isDigit ∧ n < 256 then some n else none

/-- `IpAddress::from_str` on the dotted IPv4 form. -/
def ipv4FromStr (s : String) : Option IpAddress :=
  match (s.toList.splitOn '.').map octetFromDigits with
  | [some a, some b, some c, some d] => some (.ipv4 (a ++ b ++ c ++ d))
  | _ => none

namespace TcpView

/-- `is_open`. -/
def isOpen (v : TcpView) : Bool :=
  match v.state with
  | .closed | .timeWait => false
  | _ => true

/-- `connect`. -/
def connect (v : TcpView) (remote : IpEndpoint) (port : UInt16) :
    Except Error Unit × TcpView :=
  if v.isOpen then (.error .illegal, v)
  else if !remote.isSpecified || port == 0 then (.error .unaddressable, v)
  else (.ok (), v.opened .synSent remote)

/-- `listen`. -/
def listen (v : TcpView) (port : UInt16) : Except Error Unit × TcpView :=
  if port == 0 then (.error .unaddressable, v)
  else if v.isOpen then (.error .illegal, v)
  else (.ok (), v.opened .listen .unspecified)

/-- `connect` succeeds and opens the socket, or fails and leaves it alone. -/
theorem connect_cases (v : TcpView) (remote : IpEndpoint) (port : UInt16) :
    (remote.isSpecified = true ∧
        v.connect remote port = (.ok (), v.opened .synSent remote)) ∨
      ∃ e, v.connect remote port = (.error e, v) := by
  unfold connect
  split
  · exact .inr ⟨_, rfl⟩
  · split
    · exact .inr ⟨_, rfl⟩
    · rename_i hports
      simp only [Bool.or_eq_true, not_or, Bool.not_eq_true', Bool.not_eq_false] at hports
      exact .inl ⟨hports.1, rfl⟩

/-- `listen` succeeds and opens the socket, or fails and leaves it alone. -/
theorem listen_cases (v : TcpView) (port : UInt16) :
    v.listen port = (.ok (), v.opened .listen .unspecified) ∨
      ∃ e, v.listen port = (.error e, v) := by
  unfold listen
  split
  · exact .inr ⟨_, rfl⟩
  · split
    · exact .inr ⟨_, rfl⟩
    · exact .inl rfl

/-- `recv_slice`, with a buffer of `n` octets. -/
def recvSlice (v : TcpView) (n : Nat) : Except Error (List UInt8) × TcpView :=
  if v.mayRecv then (.ok (v.rx.take n), { v with rx := v.rx.drop n })
  else (.error .illegal, v)

/-- `send_slice`. -/
def sendSlice (v : TcpView) (data : List UInt8) : Except Error Nat × TcpView :=
  if v.maySend then
    (.ok (min data.length v.room), { v with tx := v.tx ++ data.take v.room })
  else (.error .illegal, v)

end TcpView

/-- The parameter instantiated by the views. -/
def reference (W : Type) : SmolTcp W where
  Socket := TcpView
  new _ tx := ⟨.closed, .unspecified, [], [], tx⟩
  view v := v
  state v := v.state
  remoteEndpoint v := v.remote
  isActive := TcpView.isActive
  mayRecv := TcpView.mayRecv
  canRecv := TcpView.canRecv
  canSend := TcpView.canSend
  sendQueue v := v.tx.length
  connect := TcpView.connect
  listen := TcpView.listen
  recvSlice := TcpView.recvSlice
  sendSlice := TcpView.sendSlice
  close := TcpView.close
  setKeepAlive v _ := v
  registerRecvWaker v _ := v
  registerSendWaker v _ := v
  process := TcpView.process
  expire := TcpView.expire
  fromStr := ipv4FromStr

/-- The reference socket behaves as documented. -/
instance (W : Type) : (reference W).Documented where
  new_view _ _ := rfl
  state_eq _ := rfl
  remoteEndpoint_eq _ := rfl
  isActive_eq _ := rfl
  mayRecv_eq _ := rfl
  canRecv_eq _ := rfl
  canSend_eq _ := rfl
  sendQueue_eq _ := rfl
  connect_specified v remote port h := by
    rcases v.connect_cases remote port with ⟨hspec, -⟩ | ⟨e, he⟩
    · exact hspec
    · cases (congrArg Prod.fst he).symm.trans h
  connect_ok v remote port h := by
    rcases v.connect_cases remote port with ⟨-, hok⟩ | ⟨e, he⟩
    · exact congrArg Prod.snd hok
    · cases (congrArg Prod.fst he).symm.trans h
  connect_error v remote port e h := by
    rcases v.connect_cases remote port with ⟨-, hok⟩ | ⟨e', he⟩
    · cases (congrArg Prod.fst hok).symm.trans h
    · exact congrArg Prod.snd he
  listen_ok v port h := by
    rcases v.listen_cases port with hok | ⟨e, he⟩
    · exact congrArg Prod.snd hok
    · cases (congrArg Prod.fst he).symm.trans h
  listen_error v port e h := by
    rcases v.listen_cases port with hok | ⟨e', he⟩
    · cases (congrArg Prod.fst hok).symm.trans h
    · exact congrArg Prod.snd he
  recvSlice_eq v n h := by
    have hmay : v.mayRecv = true := (Bool.and_eq_true_iff.mp h).1
    simp only [reference, TcpView.recvSlice, hmay, if_true, and_self]
  sendSlice_eq v data h := by
    have hmay : v.maySend = true := (Bool.and_eq_true_iff.mp h).1
    simp only [reference, TcpView.sendSlice, hmay, if_true, and_self]
  close_view _ := rfl
  setKeepAlive_view _ _ := rfl
  registerRecvWaker_view _ _ := rfl
  registerSendWaker_view _ _ := rfl
  process_view _ _ := rfl
  expire_view _ := rfl

/-! ## Segments for concrete runs -/

/-- A host on the network. -/
def remoteHost : IpEndpoint := ⟨.ipv4 0x0a000002, 4000⟩

/-- Its address as an application writes it, `"10.0.0.2"`. -/
def remoteHostText : ByteArray :=
  ⟨#[0x31, 0x30, 0x2e, 0x30, 0x2e, 0x30, 0x2e, 0x32]⟩

/-- A segment from that host. -/
def fromRemote (control : TcpControl) (ack : Bool) (ackLen : Nat)
    (payload : List UInt8) : Segment where
  src := remoteHost
  control := control
  ack := ack
  ackLen := ackLen
  ackFin := false
  payload := payload
  src_specified := by decide

end RustyHermit.Smoltcp
