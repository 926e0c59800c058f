import RustyHermit.Net.AsyncSocket

/-!
# The history of a socket

A `History` records what has happened on one socket: with whom the handshake was
completed, which octets were received, delivered, accepted and acknowledged,
when `TcpSocket::close` was called. No function of the code reads it.

- `Sound`: what the history says about the socket, in every state of the TCP
  state machine. Every critical section of a future keeps it (`Sound.step`), so
  does every segment (`Sound.segment`), whoever executes it and when.
- `Opening`: the socket as the future that opens it can find it
  (`Opening.step`, `Opening.segment`).
- `Held`, `Using`: the socket, and the futures of the calls on it, once the
  application has the handle (`Using.step`).
-/

namespace RustyHermit.Net

open RustyHermit.Smoltcp

/-! ## History -/

/-- What has happened on a socket. -/
structure History where
  /-- the remote endpoint with which the handshake was completed -/
  peer : Option IpEndpoint
  /-- the FIN of the peer has been received -/
  fin : Bool
  /-- a reset has been received -/
  reset : Bool
  /-- `TimeWait` has ended -/
  expired : Bool
  /-- the octets received from the peer, in order -/
  received : List UInt8
  /-- the octets returned by reads, in the order of their ready polls -/
  delivered : List UInt8
  /-- the octets writes have reported as accepted, likewise -/
  accepted : List UInt8
  /-- the octets the peer has acknowledged -/
  acked : List UInt8
  /-- the length of the send queue at each call of `TcpSocket::close` -/
  closes : List Nat
  /-- a `close` has returned `Ok` -/
  closed : Bool
deriving DecidableEq

namespace History

/-- A socket that has just been created. -/
def empty : History :=
  ⟨none, false, false, false, [], [], [], [], [], false⟩

/-- The segment completes the three-way handshake. -/
def completes (v : TcpView) (g : Segment) : Bool :=
  match v.state, v.state.process g with
  | .synSent, .established | .synReceived, .established => true
  | .synReceived, .closeWait => true
  | _, _ => false

/-- The segment carries this control flag and it is taken: it moves the state. -/
def takes (control : TcpControl) (v : TcpView) (g : Segment) : Bool :=
  g.control == control && v.state.process g != v.state

/-- A segment is processed. -/
def segment (k : History) (v : TcpView) (g : Segment) : History :=
  { k with
    peer := if completes v g then some (v.process g).remote else k.peer
    fin := k.fin || takes .fin v g
    reset := k.reset || takes .rst v g
    received := k.received ++ v.taken g
    acked := k.acked ++ v.acked g }

/-- A critical section of a future has been executed on a socket that was seen
as `v`. -/
def record (k : History) (v : TcpView) : Future → Progress → History
  | .read _, .ready (.ok (.bytes bytes)) => { k with delivered := k.delivered ++ bytes }
  | .write buffer, .ready (.ok (.count n)) =>
    { k with accepted := k.accepted ++ buffer.take n }
  | .close, .next _ => { k with closes := v.tx.length :: k.closes }
  | .closeWait, .ready (.ok _) => { k with closed := true }
  | _, _ => k

/-- The end of `TimeWait`, if the socket is there. -/
def expire (k : History) (v : TcpView) : History :=
  { k with expired := k.expired || v.state == .timeWait }

end History

/-! ## What the history says about the socket -/

/-- Where the handshake stands. -/
structure Peer (v : TcpView) (k : History) : Prop where
  before : v.state = .listen ∨ v.state = .synSent ∨ v.state = .synReceived →
    k.peer = none
  after : v.state = .established ∨ v.state = .closeWait → k.peer = some v.remote
  specified : v.state = .synSent ∨ v.state = .synReceived ∨ v.state = .established ∨
    v.state = .closeWait → v.remote.isSpecified = true
  listening : v.state = .listen → v.remote = .unspecified
  reset : v.state = .closed → k.closes = [] → v.remote = .unspecified

/-- How the two halves have been closed. -/
structure Halves (v : TcpView) (k : History) : Prop where
  fin : v.state = .closeWait ∨ v.state = .lastAck → k.fin = true
  shut : v.state.sendClosed = true → v.state ≠ .closed → k.closes ≠ []
  closes : k.closes ≠ [] → v.tx = [] ∧ v.state.sendClosed = true
  flushed : ∀ n ∈ k.closes, n = 0
  closed : k.closed = true → k.closes ≠ []

/-- Where the octets are. -/
structure Bytes (v : TcpView) (k : History) : Prop where
  received : k.expired = false → k.delivered ++ v.rx = k.received
  sent : k.acked ++ v.tx = k.accepted

/-- The three together. -/
structure Sound (v : TcpView) (k : History) : Prop extends
  Peer v k, Halves v k, Bytes v k

/-- A closed send half says nothing about the handshake. -/
theorem Peer.of_sendClosed {v : TcpView} {k : History}
    (h : v.state.sendClosed = true)
    (hreset : v.state = .closed → k.closes = [] → v.remote = .unspecified) :
    Peer v k where
  before hst := by
    rcases hst with hst | hst | hst <;> rw [hst] at h <;> cases h
  after hst := by
    rcases hst with hst | hst <;> rw [hst] at h <;> cases h
  specified hst := by
    rcases hst with hst | hst | hst | hst <;> rw [hst] at h <;> cases h
  listening hst := by
    rw [hst] at h
    cases h
  reset := hreset

/-! ### Segments -/

/-- A segment that does not move the state leaves the remote endpoint alone. -/
theorem nextRemote_same {v : TcpView} {g : Segment}
    (h : v.state.process g = v.state) : v.nextRemote g = v.remote := by
  rw [TcpView.nextRemote, h]
  cases v.state <;> rfl

/-- A segment that does not move the state completes no handshake. -/
theorem completes_same {v : TcpView} {g : Segment}
    (h : v.state.process g = v.state) : History.completes v g = false := by
  rw [History.completes, h]
  cases v.state <;> rfl

/-- A socket that is closed by a segment has no remote endpoint any more. -/
theorem nextRemote_closed {v : TcpView} {g : Segment} (h : v.state.process g = .closed)
    (hne : v.state ≠ .closed) : v.nextRemote g = .unspecified := by
  have hstep := TcpState.process_step v.state g
  rw [h] at hstep
  rw [TcpView.nextRemote, h]
  generalize v.state = st at hstep hne
  cases hstep with
  | same => exact absurd rfl hne
  | reset _ hlisten =>
    cases st <;> first | rfl | exact absurd rfl hlisten | exact absurd rfl hne
  | lastAcked => rfl

/-- A segment that moves the state keeps what is known of the handshake. -/
theorem Peer.segment_moved {v : TcpView} {k : History} (h : Peer v k) {g : Segment}
    (hmoved : v.state.process g ≠ v.state) : Peer (v.process g) (k.segment v g) := by
  by_cases hclosed : (v.state.process g).sendClosed = true
  case pos =>
    refine .of_sendClosed hclosed fun hst _ => ?_
    replace hst : v.state.process g = .closed := hst
    exact nextRemote_closed hst fun hv => hmoved (hst.trans hv.symm)
  case neg =>
    -- what is left are the steps of the handshake, and the FIN of the peer
    obtain ⟨hbefore, hafter, hspecified, hlistening, -⟩ := h
    have hstep := TcpState.process_step v.state g
    generalize hst : v.state.process g = st' at hstep hmoved hclosed
    generalize hv : v.state = st at hstep hmoved hst
    cases hstep with
    | same => exact absurd rfl hmoved
    | reset | finAcked | finCrossed | finBoth | finAfter | closingAcked | lastAcked =>
      exact absurd rfl hclosed
    | syn | refused =>
      constructor <;> simp_all [TcpView.process, TcpView.nextRemote, History.segment,
        History.completes, g.src_specified]
    | connected | accepted | acceptedFin | fin =>
      constructor <;> simp_all [TcpView.process, TcpView.nextRemote, History.segment,
        History.completes]

/-- A segment keeps what is known of the handshake. -/
theorem Peer.segment {v : TcpView} {k : History} (h : Peer v k) (g : Segment) :
    Peer (v.process g) (k.segment v g) := by
  by_cases hsame : v.state.process g = v.state
  case pos =>
    have hremote := nextRemote_same hsame
    have hcompletes := completes_same hsame
    constructor <;>
      simp only [TcpView.process, History.segment, hsame, hremote, hcompletes,
        Bool.false_eq_true, if_false]
    · exact h.before
    · exact h.after
    · exact h.specified
    · exact h.listening
    · exact h.reset
  case neg => exact h.segment_moved hsame

theorem Halves.segment {v : TcpView} {k : History} (h : Halves v k) (g : Segment) :
    Halves (v.process g) (k.segment v g) where
  fin := by
    have hfin := h.fin
    have hstep := TcpState.process_step v.state g
    simp only [TcpView.process, History.segment, History.takes]
    generalize v.state.process g = st' at hstep
    generalize v.state = st at hstep hfin
    cases hstep <;> simp_all
  shut := by
    have hshut := h.shut
    have hstep := TcpState.process_step v.state g
    simp only [TcpView.process, History.segment]
    generalize v.state.process g = st' at hstep
    generalize v.state = st at hstep hshut
    cases hstep <;> simp_all [TcpState.sendClosed]
  closes hne := by
    obtain ⟨htx, hclosed⟩ := h.closes hne
    refine ⟨by simp only [TcpView.process, htx, List.drop_nil], ?_⟩
    exact TcpState.sendClosed_process hclosed g
  flushed := h.flushed
  closed := h.closed

/-- What a segment acknowledges is a prefix of the send queue. -/
theorem acked_append_drop (v : TcpView) (g : Segment) :
    v.acked g ++ v.tx.drop (v.acked g).length = v.tx := by
  have hprefix : v.acked g = v.tx.take (v.acked g).length := by
    unfold TcpView.acked
    split <;> try rfl
    all_goals split <;> simp
  exact (congrArg (· ++ v.tx.drop (v.acked g).length) hprefix).trans
    (List.take_append_drop _ _)

theorem Bytes.segment {v : TcpView} {k : History} (h : Bytes v k) (g : Segment) :
    Bytes (v.process g) (k.segment v g) where
  received hexp := by
    show k.delivered ++ (v.rx ++ v.taken g) = k.received ++ v.taken g
    rw [← List.append_assoc, h.received hexp]
  sent := by
    show k.acked ++ v.acked g ++ v.tx.drop (v.acked g).length = k.accepted
    rw [List.append_assoc, acked_append_drop, h.sent]

/-- A segment keeps the history sound. -/
theorem Sound.segment {v : TcpView} {k : History} (h : Sound v k) (g : Segment) :
    Sound (v.process g) (k.segment v g) :=
  { h.toPeer.segment g, h.toHalves.segment g, h.toBytes.segment g with }

/-- `expire` is about `TimeWait` only. -/
theorem expire_same {v : TcpView} (k : History) (hst : v.state ≠ .timeWait) :
    v.expire = v ∧ k.expire v = k := by
  constructor
  · unfold TcpView.expire
    split
    · contradiction
    · rfl
  · simp only [History.expire, beq_eq_false_iff_ne.mpr hst, Bool.or_false]

/-- The end of `TimeWait` keeps the history sound: the send queue was empty. -/
theorem Sound.expire {v : TcpView} {k : History} (h : Sound v k) :
    Sound v.expire (k.expire v) := by
  by_cases hst : v.state = .timeWait
  case neg =>
    obtain ⟨hv, hk⟩ := expire_same k hst
    rw [hv, hk]
    exact h
  case pos =>
    have hv : v.expire = v.opened .closed .unspecified := by
      simp only [TcpView.expire, hst]
    have hcloses : k.closes ≠ [] := h.shut (by rw [hst]; rfl) (by rw [hst]; nofun)
    have hsent := h.sent
    rw [(h.closes hcloses).1] at hsent
    rw [hv]
    exact { Peer.of_sendClosed (v := v.opened .closed .unspecified) rfl (fun _ _ => rfl)
        with
      fin := by simp [TcpView.opened]
      shut := fun _ hne => absurd rfl hne
      closes := fun _ => ⟨rfl, rfl⟩
      flushed := h.flushed
      closed := h.closed
      received := by simp [History.expire, hst]
      sent := hsent }

/-! ### Critical sections -/

/-- A socket nobody has used. -/
structure Fresh (v : TcpView) (k : History) : Prop where
  state : v.state = .closed
  remote : v.remote = .unspecified
  rx : v.rx = []
  tx : v.tx = []
  history : k = .empty

/-- A socket that is set to connect or to listen. -/
theorem Sound.opened {v : TcpView} {k : History} {state : TcpState}
    {remote : IpEndpoint} (h : Fresh v k)
    (hstate : (state = .synSent ∧ remote.isSpecified = true) ∨
      (state = .listen ∧ remote = .unspecified)) :
    Sound (v.opened state remote) k := by
  obtain ⟨-, -, -, -, rfl⟩ := h
  exact {
    before := fun _ => rfl
    after := by rcases hstate with ⟨rfl, -⟩ | ⟨rfl, -⟩ <;> simp [TcpView.opened]
    specified := by
      rcases hstate with ⟨rfl, hspec⟩ | ⟨rfl, -⟩
      · exact fun _ => hspec
      · simp [TcpView.opened]
    listening := by
      rcases hstate with ⟨rfl, -⟩ | ⟨rfl, hremote⟩
      · simp [TcpView.opened]
      · exact fun _ => hremote
    reset := by rcases hstate with ⟨rfl, -⟩ | ⟨rfl, -⟩ <;> simp [TcpView.opened]
    fin := by rcases hstate with ⟨rfl, -⟩ | ⟨rfl, -⟩ <;> simp [TcpView.opened]
    shut := by
      rcases hstate with ⟨rfl, -⟩ | ⟨rfl, -⟩ <;> simp [TcpView.opened, TcpState.sendClosed]
    closes := fun hne => absurd rfl hne
    flushed := nofun
    closed := nofun
    received := fun _ => rfl
    sent := rfl }

/-- `close` on a socket with an empty send queue. -/
theorem Sound.close {v : TcpView} {k : History} (h : Sound v k) (htx : v.tx = []) :
    Sound v.close { k with closes := v.tx.length :: k.closes } :=
  { Peer.of_sendClosed (v := v.close) (TcpState.sendClosed_close v.state)
      fun _ hnil => absurd hnil (List.cons_ne_nil _ _) with
    fin := fun hst => h.fin (TcpState.close_waits hst)
    shut := fun _ _ => nofun
    closes := fun _ => ⟨htx, TcpState.sendClosed_close v.state⟩
    flushed := fun n hn => by
      rcases List.mem_cons.mp hn with rfl | hn
      · rw [htx]
        rfl
      · exact h.flushed n hn
    closed := fun _ => nofun
    received := h.received
    sent := h.sent }

/-- A write is accepted only while the send half is open. -/
theorem Sound.write {v : TcpView} {k : History} (h : Sound v k) (hcan : v.canSend = true)
    (buffer : List UInt8) :
    Sound { v with tx := v.tx ++ buffer.take v.room }
      { k with accepted := k.accepted ++ buffer.take (min buffer.length v.room) } :=
  { h with
    closes := fun hne => by
      have hmay : v.maySend = true := (Bool.and_eq_true_iff.mp hcan).1
      rw [TcpView.maySend_of_sendClosed (h.closes hne).2] at hmay
      cases hmay
    sent := by
      have htake : buffer.take (min buffer.length v.room) = buffer.take v.room := by
        rw [Nat.min_comm, ← List.take_eq_take_min]
      show k.acked ++ (v.tx ++ _) = k.accepted ++ _
      rw [htake, ← List.append_assoc, h.sent] }

/-- A read takes what it returns from the front of the receive buffer. -/
theorem Sound.read {v : TcpView} {k : History} (h : Sound v k) (len : Nat) :
    Sound { v with rx := v.rx.drop len }
      { k with delivered := k.delivered ++ v.rx.take len } :=
  { h with
    received := fun hexp => by
      rw [List.append_assoc, List.take_append_drop]
      exact h.received hexp }

/-- A critical section keeps the history sound. -/
theorem Sound.step {self : Handle} {v v' : TcpView} {k : History} {fut : Future}
    {progress : Progress} (h : Sound v k)
    (hfresh : fut.opens = true → Fresh v k)
    (hwait : fut = .closeWait → k.closes ≠ [])
    (hstep : Future.Step self v fut progress v') :
    Sound v' (k.record v fut progress) := by
  cases hstep with
  | connectStart remote hspec => exact .opened (hfresh rfl) (.inl ⟨rfl, hspec⟩)
  | acceptStart => exact .opened (hfresh rfl) (.inr ⟨rfl, rfl⟩)
  | readBytes => exact h.read _
  | readEnd =>
    simp only [History.record, List.append_nil]
    exact h
  | writeEnd =>
    simp only [History.record, List.take_zero, List.append_nil]
    exact h
  | writeBytes _ _ hcan => exact h.write hcan _
  | close _ htx => exact h.close htx
  | closed => exact { h with closed := fun _ => hwait rfl }
  | _ => exact h

/-! ### Who holds a future -/

/-- A segment does nothing to a closed socket. -/
theorem Fresh.segment {v : TcpView} {k : History} (h : Fresh v k) (g : Segment) :
    Fresh (v.process g) (k.segment v g) := by
  obtain ⟨st, remote, rx, tx, cap⟩ := v
  obtain ⟨rfl, rfl, rfl, rfl, rfl⟩ := h
  have htaken : TcpView.taken ⟨.closed, .unspecified, [], [], cap⟩ g = [] := by
    unfold TcpView.taken
    split <;> rfl
  constructor
  · rfl
  · rfl
  · simp only [TcpView.process, htaken, List.append_nil]
  · simp only [TcpView.process, List.drop_nil]
  · simp [History.segment, htaken, TcpView.acked, History.takes, History.completes,
      TcpState.process, History.empty]

/-- The socket, seen by the future that opens it. -/
def Opening (v : TcpView) (k : History) : Future → Prop
  | .connect _ _ | .accept _ => Fresh v k
  | .connectPoll => k.closes = [] ∧
    (v.state = .synSent ∨ v.state = .established ∨ v.state = .closeWait ∨
      (v.state = .closed ∧ k.reset = true))
  | .acceptPoll | .acceptPeer => k.closes = [] ∧
    (v.state = .listen ∨ v.state = .synReceived ∨ v.state = .established ∨
      v.state = .closeWait ∨ (v.state = .closed ∧ k.reset = true))
  | _ => False

theorem Opening.closes {v : TcpView} {k : History} {fut : Future}
    (h : Opening v k fut) : k.closes = [] := by
  cases fut with
  | connect | accept => exact h.history ▸ rfl
  | connectPoll | acceptPoll | acceptPeer => exact h.1
  | _ => exact h.elim

/-- A segment leaves the socket as the future that opens it can find it. -/
theorem Opening.segment {v : TcpView} {k : History} {fut : Future}
    (h : Opening v k fut) (g : Segment) :
    Opening (v.process g) (k.segment v g) fut := by
  have hstep := TcpState.process_step v.state g
  cases fut with
  | connect | accept => exact Fresh.segment h g
  | connectPoll | acceptPoll | acceptPeer =>
    -- the handshake goes on, the peer closes already, or a reset ends it
    refine ⟨h.1, ?_⟩
    have hst := h.2
    simp only [TcpView.process, History.segment, History.takes]
    generalize v.state.process g = st' at hstep
    generalize v.state = st at hstep hst
    cases hstep with
    | reset hrst _ _ hne => simp [hrst, Ne.symm hne]
    | _ => simp_all
  | _ => exact h

theorem Opening.fresh {v : TcpView} {k : History} {fut : Future} (h : Opening v k fut)
    (hfut : fut.opens = true) : Fresh v k := by
  cases fut <;> first | exact h | cases hfut

/-- A closed socket that the application holds was reset, or closed locally. -/
def Held (v : TcpView) (k : History) : Prop :=
  v.state = .closed → k.reset = true ∨ k.closes ≠ []

theorem Opening.held {v : TcpView} {k : History} {fut : Future} (h : Opening v k fut)
    (hfut : fut.opens = false) : Held v k := by
  intro hst
  cases fut with
  | connectPoll | acceptPoll | acceptPeer =>
    have hcases := h.2
    simp only [hst, true_and, reduceCtorEq, false_or] at hcases
    exact .inl hcases
  | connect | accept => cases hfut
  | _ => exact h.elim

/-- A socket is closed by a reset, or by the acknowledgement of its last FIN. -/
theorem closed_cases {v : TcpView} {g : Segment} (h : v.state.process g = .closed) :
    v.state = .closed ∨ History.takes .rst v g = true ∨ v.state = .lastAck := by
  have hstep := TcpState.process_step v.state g
  rw [h] at hstep
  simp only [History.takes, h]
  generalize v.state = st at hstep
  cases hstep with
  | same => exact .inl rfl
  | reset hrst _ _ hne => simp [hrst, Ne.symm hne]
  | lastAcked => exact .inr (.inr rfl)

theorem Held.segment {v : TcpView} {k : History} (h : Held v k) (hs : Sound v k)
    (g : Segment) : Held (v.process g) (k.segment v g) := by
  intro hst
  show (k.reset || History.takes .rst v g) = true ∨ k.closes ≠ []
  rw [Bool.or_eq_true]
  rcases closed_cases hst with hclosed | hreset | hlast
  · exact (h hclosed).imp_left .inl
  · exact .inl (.inr hreset)
  · exact .inr (hs.shut (by rw [hlast]; rfl) (by rw [hlast]; nofun))

/-- The futures of calls on the handle. -/
def Using (k : History) (fut : Future) : Prop :=
  fut.uses = true ∨ (fut = .closeWait ∧ k.closes ≠ [])

theorem Using.not_opens {k : History} {fut : Future} (h : Using k fut) :
    fut.opens = false := by
  rcases h with h | ⟨rfl, -⟩
  · cases fut <;> first | rfl | cases h
  · rfl

theorem Using.closeWait {k : History} (h : Using k .closeWait) : k.closes ≠ [] := by
  rcases h with h | ⟨-, h⟩
  · cases h
  · exact h

/-- What a section of `connect` or `accept` leaves behind. -/
def Opened (v : TcpView) (k : History) (fut : Future) : Progress → Prop
  | .next fut' => Opening v k fut'
  | .pending => Opening v k fut
  | .ready (.ok _) => Held v k
  | .ready (.error _) => True

/-- A section of `connect` or `accept`. -/
theorem Opening.step {self : Handle} {v v' : TcpView} {k : History} {fut : Future}
    {progress : Progress} (h : Opening v k fut)
    (hstep : Future.Step self v fut progress v') :
    Opened v' (k.record v fut progress) fut progress := by
  cases hstep with
  | connectStart => exact ⟨by rw [h.history]; rfl, .inl rfl⟩
  | acceptStart => exact ⟨by rw [h.history]; rfl, .inl rfl⟩
  | connected | accepted => exact h.held rfl
  | acceptActive | acceptPending | connectPending => exact h
  | connectError | connectRefused | acceptError | acceptClosed => trivial
  | _ => exact h.elim

/-- A section of a call on the handle. -/
theorem Using.step {self : Handle} {v v' : TcpView} {k : History} {fut : Future}
    {progress : Progress} (h : Using k fut) (hheld : Held v k)
    (hstep : Future.Step self v fut progress v') :
    Held v' (k.record v fut progress) ∧
    (∀ fut', Using k fut' → Using (k.record v fut progress) fut') ∧
    ∀ fut', fut.rest progress = some fut' →
      Using (k.record v fut progress) fut' := by
  cases hstep with
  | close =>
    refine ⟨fun _ => .inr (List.cons_ne_nil _ _), fun fut' hfut' => ?_, ?_⟩
    · exact hfut'.imp_right fun hwait => ⟨hwait.1, List.cons_ne_nil _ _⟩
    · rintro _ ⟨⟩
      exact .inr ⟨rfl, List.cons_ne_nil _ _⟩
  | connectError | connectStart | connectRefused | connectPending | connected
  | acceptError | acceptStart | acceptActive | acceptClosed | acceptPending
  | accepted => exact absurd h (by simp [Using, Future.uses])
  | readPending | writePending | closePending | closeWaiting =>
    refine ⟨hheld, fun _ => id, ?_⟩
    rintro _ ⟨⟩
    exact h
  | _ => exact ⟨hheld, fun _ => id, nofun⟩

end RustyHermit.Net
