import RustyHermit.Net.Conn
import RustyHermit.Smoltcp.Async

/-!
# Futures that wait, and who wakes them

A future of an `AsyncSocket` that has to wait registers its waker in one of the two
slots of the socket and is polled again when that has woken it. So whatever makes
it ready must wake this slot, or the future sleeps on.

The machine is one socket on which any number of tasks start, poll and drop futures
of any kind, also several that open it. It remembers for every future that is
`Pending` which waker its last poll was given and how often that had been woken by
then.

Each condition a future waits for comes true by a change of the state, by octets
that arrive or by octets that are acknowledged, and these wake the slot it chose,
with one exception: `write` asks `may_recv`, which a `read` can turn false by taking
the last octets, and a `read` wakes nobody (`write_sleeps`, `sleeps_of_drains`).
Without such a step no future sleeps through its readiness, if the socket wakes a
waker that another one displaces (`noSleep_of_not_drains`).
-/

namespace RustyHermit.Net

open RustyHermit.Smoltcp RustyHermit.Executor

/-! ## What a future waits for -/

namespace Future

/-- The slot in which a `Pending` poll registers. -/
def slot : Future → Slot
  | .acceptPoll | .read _ => .recv
  | _ => .send

/-- A poll is `Pending`. -/
def Blocked (v : TcpView) : Future → Prop
  | .connectPoll => v.state = .synSent ∨ v.state = .synReceived
  | .acceptPoll => v.state = .listen ∨ v.state = .timeWait
  | .read _ => ended v.state = false ∧ v.mayRecv = true ∧ v.canRecv = false
  | .write _ => ended v.state = false ∧ v.mayRecv = true ∧ v.canSend = false
  | .close => ended v.state = false ∧ v.tx ≠ []
  | .closeWait => ended v.state = false
  | .connect _ _ | .accept _ | .acceptPeer => False

/-- A poll is `Pending` exactly if the future is blocked. -/
theorem Step.pending_iff {self : Handle} {v v' : TcpView} {fut : Future}
    {progress : Progress} (h : Step self v fut progress v') :
    progress = .pending ↔ Blocked v fut := by
  constructor
  · rintro rfl
    cases h with
    | connectPending h | acceptPending h | closeWaiting h => exact h
    | readPending h h' h'' | writePending h h' h'' => exact ⟨h, h', h''⟩
    | closePending h h' => exact ⟨h, h'⟩
  · intro hb
    cases h with
    | connectPending | acceptPending | readPending | writePending | closePending
    | closeWaiting => rfl
    | connectError | connectStart | acceptError | acceptStart | accepted => exact hb.elim
    | connected _ _ _ hsent hreceived => exact (not_or.mpr ⟨hsent, hreceived⟩ hb).elim
    | connectRefused e h | acceptClosed e h => rcases hb with hb | hb <;> simp [hb] at h
    | acceptActive h => rcases hb with hb | hb <;> simp [TcpView.isActive, hb] at h
    | readError e h | writeError e h | closeError e h =>
      exact Bool.noConfusion (h.symm.trans hb.1)
    | closed h => exact Bool.noConfusion (h.symm.trans hb)
    | readBytes _ h | writeBytes _ _ h => exact Bool.noConfusion (h.symm.trans hb.2.2)
    | readEnd _ h | writeEnd _ h => exact Bool.noConfusion (hb.2.1.symm.trans h)
    | close _ h => exact (hb.2 h).elim

/-- A `Pending` poll leaves the socket as it was. -/
theorem Step.pending_same {self : Handle} {v v' : TcpView} {fut : Future}
    (h : Step self v fut .pending v') : v' = v := by
  cases h <;> rfl

/-- A segment that leaves the state, and brings nothing the slot is for, leaves the
future blocked. -/
theorem Blocked.process {v : TcpView} {g : Segment} {fut : Future} (h : Blocked v fut)
    (hst : (v.process g).state = v.state)
    (hslot : match fut.slot with
      | .recv => v.taken g = []
      | .send => v.acked g = []) : Blocked (v.process g) fut := by
  cases fut with
  | connectPoll | acceptPoll | closeWait =>
    unfold Blocked at h ⊢
    rw [hst]
    exact h
  | read len =>
    have hrx : (v.process g).rx = v.rx := by
      show v.rx ++ v.taken g = v.rx
      rw [hslot, List.append_nil]
    obtain ⟨hmay, hcan⟩ := TcpView.recv_congr hst hrx
    exact ⟨hst ▸ h.1, hmay.trans h.2.1, hcan.trans h.2.2⟩
  | write buffer =>
    have htx : (v.process g).tx = v.tx := by
      show v.tx.drop (v.acked g).length = v.tx
      rw [hslot]
      rfl
    exact ⟨hst ▸ h.1, TcpView.mayRecv_append h.2.1 hst rfl,
      (TcpView.canSend_congr hst htx rfl).trans h.2.2⟩
  | close =>
    refine ⟨hst ▸ h.1, ?_⟩
    show v.tx.drop (v.acked g).length ≠ []
    rw [hslot]
    exact h.2
  | connect | accept | acceptPeer => exact h.elim

/-- Another task's critical section that leaves the state leaves the future blocked,
unless it is a `read` that takes the last octets from under a `write`. -/
theorem Blocked.step {self : Handle} {v v' : TcpView} {fut fut' : Future}
    {progress : Progress} (h : Blocked v fut') (hstep : Step self v fut progress v')
    (hclosed : fut.opens = true → ∀ fut₁, progress = .next fut₁ → v.isOpen = false)
    (hst : v'.state = v.state) :
    Blocked v' fut' ∨ ∃ len buffer, fut = .read len ∧ fut' = .write buffer ∧
      ended v.state = false ∧ v.rx ≠ [] ∧ v.rx.drop len = [] ∧ v.state ≠ .established := by
  cases hstep with
  | connectStart | acceptStart =>
    -- the socket was not open, so the state has changed
    have hopen := hclosed rfl _ rfl
    unfold TcpView.isOpen at hopen
    rw [← hst] at hopen
    cases hopen
  | @readBytes len hended hcan =>
    cases fut' with
    | read => exact Bool.noConfusion (hcan.symm.trans h.2.2)
    | write buffer =>
      by_cases hrest : v.rx.drop len = []
      · by_cases hest : v.state = .established
        · refine .inl ⟨h.1, ?_, h.2.2⟩
          unfold TcpView.mayRecv
          rw [show TcpView.state { v with rx := v.rx.drop len } = .established from hest]
        · exact .inr ⟨len, buffer, rfl, rfl, hended, v.canRecv_iff.mp hcan, hrest, hest⟩
      · exact .inl ⟨h.1, TcpView.mayRecv_of_rx hrest, h.2.2⟩
    | _ => exact .inl h
  | writeBytes hended hmay hcan =>
    cases fut' with
    | write => exact Bool.noConfusion (hcan.symm.trans h.2.2)
    | close => exact .inl ⟨h.1, List.append_ne_nil_of_left_ne_nil h.2 _⟩
    | _ => exact .inl h
  | close hended htx =>
    rw [show v.close = v by rw [TcpView.close, show v.state.close = v.state from hst]]
    exact .inl h
  | _ => exact .inl h

end Future

/-! ## What a critical section does to the slots -/

section Signals

variable {W : Type} [DecidableEq W] {tcp : SmolTcp W} [tcp.Async]

/-- The slots of a socket. -/
def wakers (s : tcp.Socket) : Wakers Slot W :=
  SmolTcp.Async.wakers s

/-- From the socket `s` to the socket `s'`. -/
def Signals (s s' : tcp.Socket) : Prop :=
  tcp.Signals wakers s s'

/-- Nothing happens to the state. -/
theorem Signals.of_state {s s' : tcp.Socket} (h : (wakers s).Keeps (wakers s'))
    (hst : (tcp.view s').state = (tcp.view s).state) : Signals s s' where
  keeps := h
  state hne := absurd hst hne

theorem Signals.refl (s : tcp.Socket) : Signals s s :=
  .of_state (.refl _) rfl

/-- Nothing happens to the slots either. -/
theorem Signals.of_eq {s s' : tcp.Socket} (h : wakers s' = wakers s)
    (hst : (tcp.view s').state = (tcp.view s).state) : Signals s s' :=
  .of_state (h ▸ .refl _) hst

/-- A waker is registered in the slot `k`. -/
def registerWaker (s : tcp.Socket) (cx : W) : Slot → tcp.Socket
  | .recv => tcp.registerRecvWaker s cx
  | .send => tcp.registerSendWaker s cx

theorem registerWaker_registers (s : tcp.Socket) (cx : W) (k : Slot) :
    (wakers s).Registers (wakers (registerWaker s cx k)) k cx := by
  cases k with
  | recv => exact SmolTcp.Async.registerRecvWaker_registers s cx
  | send => exact SmolTcp.Async.registerSendWaker_registers s cx

theorem registerWaker_wakes [tcp.WakesDisplaced] {s : tcp.Socket} {cx w : W} {k : Slot}
    (hslot : (wakers s).slot k = some w) (hne : w ≠ cx) :
    (wakers s).woken w < (wakers (registerWaker s cx k)).woken w := by
  cases k with
  | recv => exact SmolTcp.WakesDisplaced.registerRecvWaker_wakes s cx w hslot hne
  | send => exact SmolTcp.WakesDisplaced.registerSendWaker_wakes s cx w hslot hne

/-- A critical section of `fut`, polled with the waker `cx`, that takes `s` to `res`:
it loses no waker, or the poll is `Pending` and has registered `cx` in its slot. -/
structure Registers (cx : W) (fut : Future) (s : tcp.Socket) (res : Progress × tcp.Socket) :
    Prop where
  signals : res.1 ≠ .pending → Signals s res.2
  registered : res.1 = .pending → res.2 = registerWaker s cx fut.slot

/-- What a `Pending` poll does to the slots. -/
theorem Registers.pending {cx : W} {fut : Future} {s : tcp.Socket} {res : Progress × tcp.Socket}
    (h : Registers cx fut s res) (hp : res.1 = .pending) :
    (wakers s).Registers (wakers res.2) fut.slot cx := by
  rw [h.registered hp]
  exact registerWaker_registers s cx fut.slot

theorem Registers.ready {cx : W} {fut : Future} {s s' : tcp.Socket} {α : Type}
    {k : α → Progress} (h : Signals s s') (hk : ∀ a, k a ≠ .pending) (r : Except Error α) :
    Registers cx fut s (Progress.await k (.ready r), s') where
  signals _ := h
  registered hp := by
    cases r with
    | error e => cases hp
    | ok a => exact absurd hp (hk a)

theorem Registers.recv {cx : W} {fut : Future} {s : tcp.Socket} {α : Type}
    {k : α → Progress} (h : fut.slot = .recv) :
    Registers cx fut s (Progress.await k .pending, tcp.registerRecvWaker s cx) where
  signals hp := absurd rfl hp
  registered _ := by rw [h, registerWaker]

theorem Registers.send {cx : W} {fut : Future} {s : tcp.Socket} {α : Type}
    {k : α → Progress} (h : fut.slot = .send) :
    Registers cx fut s (Progress.await k .pending, tcp.registerSendWaker s cx) where
  signals hp := absurd rfl hp
  registered _ := by rw [h, registerWaker]

variable [tcp.Documented]

/-- Every critical section registers in its slot, or changes the socket without
losing a waker. -/
theorem step_registers (self : Handle) (cx : W) (localPort : UInt16) (s : tcp.Socket)
    (fut : Future) : Registers cx fut s (Future.step tcp self cx localPort s fut) := by
  cases fut with
  | connect ip port =>
    simp only [Future.step]
    split
    · exact ⟨fun _ => .refl s, Progress.noConfusion⟩
    · exact .ready (SmolTcp.Async.connect_signals s _ _) (fun _ => Progress.noConfusion) _
  | connectPoll =>
    simp only [Future.step, AsyncSocket.connectPoll]
    split
    case h_4 | h_5 => exact .send rfl
    all_goals exact .ready (.refl s) (fun _ => Progress.noConfusion) _
  | accept port =>
    exact .ready (SmolTcp.Async.listen_signals s port) (fun _ => Progress.noConfusion) _
  | acceptPoll =>
    simp only [Future.step, AsyncSocket.acceptPoll]
    split
    · exact .ready (.refl s) (fun _ => Progress.noConfusion) _
    · split
      case h_5 => exact .recv rfl
      all_goals exact .ready (.refl s) (fun _ => Progress.noConfusion) _
  | acceptPeer =>
    refine ⟨fun _ => .of_eq (SmolTcp.Async.setKeepAlive_eq s _) ?_, Progress.noConfusion⟩
    simp only [Future.step, AsyncSocket.acceptPeer, SmolTcp.Documented.setKeepAlive_view]
  | read len =>
    simp only [Future.step, AsyncSocket.read]
    split
    · exact .ready (.refl s) (fun _ => Progress.noConfusion) _
    · split
      · rename_i hcan
        rw [SmolTcp.Documented.canRecv_eq] at hcan
        refine .ready (.of_eq (SmolTcp.Async.recvSlice_eq s len) ?_)
          (fun _ => Progress.noConfusion) _
        rw [(SmolTcp.Documented.recvSlice_eq s len hcan).2]
      · split
        · exact .ready (.refl s) (fun _ => Progress.noConfusion) _
        · exact .recv rfl
  | write buffer =>
    simp only [Future.step, AsyncSocket.write]
    split
    · exact .ready (.refl s) (fun _ => Progress.noConfusion) _
    · split
      · exact .ready (.refl s) (fun _ => Progress.noConfusion) _
      · split
        · rename_i hcan
          rw [SmolTcp.Documented.canSend_eq] at hcan
          refine .ready (.of_eq (SmolTcp.Async.sendSlice_eq s buffer) ?_)
            (fun _ => Progress.noConfusion) _
          rw [(SmolTcp.Documented.sendSlice_eq s buffer hcan).2]
        · exact .send rfl
  | close =>
    simp only [Future.step, AsyncSocket.closeFlush]
    split
    · exact .ready (.refl s) (fun _ => Progress.noConfusion) _
    · split
      · exact .send rfl
      · exact .ready (SmolTcp.Async.close_signals s) (fun _ => Progress.noConfusion) _
  | closeWait =>
    simp only [Future.step, AsyncSocket.closeWait]
    split
    · exact .ready (.refl s) (fun _ => Progress.noConfusion) _
    · exact .send rfl

omit [tcp.Documented] in
/-- Only a socket that is not open is opened. -/
theorem closed_of_opens {self : Handle} {cx : W} {localPort : UInt16} {s : tcp.Socket}
    {fut fut' : Future} (hopens : fut.opens = true)
    (h : (Future.step tcp self cx localPort s fut).1 = .next fut') :
    (tcp.view s).isOpen = false := by
  cases fut with
  | connect ip port =>
    simp only [Future.step] at h
    split at h
    · cases h
    · rename_i address _
      cases hres : (tcp.connect s ⟨address, port⟩ localPort).1 with
      | ok => exact SmolTcp.Async.connect_closed s _ _ hres
      | error e =>
        simp only [AsyncSocket.connectStart, hres] at h
        cases h
  | accept port =>
    cases hres : (tcp.listen s port).1 with
    | ok => exact SmolTcp.Async.listen_closed s _ hres
    | error e =>
      simp only [Future.step, AsyncSocket.acceptStart, hres] at h
      cases h
  | _ => cases hopens

end Signals

/-! ## The machine -/

/-- A socket, the futures on it, and what their last polls left behind. -/
structure Sleepers {W : Type} (tcp : SmolTcp W) (ι : Type) where
  self : Handle
  socket : tcp.Socket
  /-- what is left to execute of the future of each task -/
  calls : ι → Option Future
  /-- ghost: for a future whose last poll was `Pending`, the waker it was given and
  how often that had been woken by then -/
  pending : ι → Option (W × Nat)

namespace Sleepers

/-- What can happen next. -/
inductive Label (W ι : Type) where
  /-- task `i` starts a future on the socket -/
  | start (i : ι) (fut : Future)
  /-- it executes the next critical section of its future -/
  | poll (i : ι) (cx : W) (localPort : UInt16)
  /-- it drops its future -/
  | drop (i : ι)
  /-- `iface.poll` hands a segment to the socket -/
  | segment (g : Segment)
  /-- `iface.poll` notices the end of `TimeWait` -/
  | expire

variable {W : Type} [DecidableEq W] {tcp : SmolTcp W} [tcp.Async] {ι : Type}

/-- What can be observed of the socket. -/
def view (s : Sleepers tcp ι) : TcpView :=
  tcp.view s.socket

/-- The next critical section of `fut` on this socket. -/
def step (s : Sleepers tcp ι) (fut : Future) (cx : W) (localPort : UInt16) :
    Progress × tcp.Socket :=
  Future.step tcp s.self cx localPort s.socket fut

/-- How often a waker has been woken by the socket. -/
def woken (s : Sleepers tcp ι) (w : W) : Nat :=
  (wakers s.socket).woken w

/-- `AsyncSocket::new`. -/
def new (self : Handle) : Sleepers tcp ι :=
  { self
    socket := AsyncSocket.createHandle tcp
    calls := fun _ => none
    pending := fun _ => none }

variable [DecidableEq ι]

/-- Task `i` has executed the critical section `fut`. -/
def polled (s : Sleepers tcp ι) (i : ι) (fut : Future) (cx : W) (localPort : UInt16) :
    Sleepers tcp ι :=
  let (progress, socket) := s.step fut cx localPort
  { s with
    socket
    calls := Function.update s.calls i (fut.rest progress)
    pending := Function.update s.pending i (match progress with
      | .pending => some (cx, (wakers socket).woken cx)
      | _ => none) }

/-- One step. -/
def next (s : Sleepers tcp ι) : Label W ι → Option (Sleepers tcp ι)
  | .start i fut =>
    if (fut.opens || fut.uses) ∧ (s.calls i).isNone then
      some { s with
        calls := Function.update s.calls i (some fut)
        pending := Function.update s.pending i none }
    else none
  | .poll i cx localPort => (s.calls i).map fun fut => s.polled i fut cx localPort
  | .drop i =>
    (s.calls i).map fun _ => { s with
      calls := Function.update s.calls i none
      pending := Function.update s.pending i none }
  | .segment g => some { s with socket := tcp.process s.socket g }
  | .expire => some { s with socket := tcp.expire s.socket }

/-- All runs of one socket. -/
def machine (tcp : SmolTcp W) [tcp.Async] (ι : Type) [DecidableEq ι] :
    Machine (Sleepers tcp ι) (Label W ι) where
  init s := ∃ self, s = new self
  next := next

/-! ## What should hold -/

omit [DecidableEq ι] in
/-- A future whose last poll was `Pending` and whose next one would not be has been
woken in between. -/
def NoSleep (s : Sleepers tcp ι) : Prop :=
  ∀ i fut w n, s.calls i = some fut → s.pending i = some (w, n) →
    (∃ cx localPort, (s.step fut cx localPort).1 ≠ .pending) → n < s.woken w

omit [DecidableEq ι] in
/-- Task `i` waits in a `write`, and has not been woken since its last poll. -/
def WriteSleeps (s : Sleepers tcp ι) (i : ι) : Prop :=
  ∃ buffer w n, s.calls i = some (.write buffer) ∧ s.pending i = some (w, n) ∧
    ¬ n < s.woken w

omit [DecidableEq ι] in
/-- The step is a `read` of the last octets there are, on a socket that is no longer
`Established` and on which a `write` waits. -/
def Drains (s : Sleepers tcp ι) : Label W ι → Prop
  | .poll i _ _ =>
    ∃ len, s.calls i = some (.read len) ∧ ended s.view.state = false ∧
      s.view.rx ≠ [] ∧ s.view.rx.drop len = [] ∧ s.view.state ≠ .established ∧
      ∃ j, s.WriteSleeps j
  | _ => False

/-! ## The invariant -/

omit [DecidableEq ι] in
/-- A future that waits: its slot has its waker or has woken it, and it has been
woken or is still blocked. -/
structure Waits (s : tcp.Socket) (fut : Future) (w : W) (n : Nat) : Prop where
  covered : (wakers s).Covered fut.slot w n
  asleep : n < (wakers s).woken w ∨ Future.Blocked (tcp.view s) fut

omit [DecidableEq ι] in
/-- The invariant of the futures. -/
def Inv (s : Sleepers tcp ι) : Prop :=
  ∀ i w n, s.pending i = some (w, n) →
    ∃ fut, s.calls i = some fut ∧ Waits s.socket fut w n

omit [DecidableEq ι] in
/-- A future goes on waiting if what leaves the state either leaves it blocked or
wakes it. -/
theorem Waits.next {s s' : tcp.Socket} {fut : Future} {w : W} {n : Nat}
    (h : Waits s fut w n) (hs : Signals s s')
    (hblocked : Future.Blocked (tcp.view s) fut → (tcp.view s').state = (tcp.view s).state →
      ¬ n < (wakers s).woken w →
      Future.Blocked (tcp.view s') fut ∨ (wakers s).Wakes (wakers s') fut.slot) :
    Waits s' fut w n where
  covered := hs.keeps.covered h.covered
  asleep := by
    have hmono := hs.keeps.mono w
    by_cases hwoken : n < (wakers s).woken w
    · exact .inl (by omega)
    · have hb := h.asleep.resolve_left hwoken
      by_cases hst : (tcp.view s').state = (tcp.view s).state
      · rcases hblocked hb hst hwoken with hb' | hwakes
        · exact .inr hb'
        · exact .inl (h.covered.lt_of_wakes hs.keeps hwakes)
      · have hwakes := hs.state hst fut.slot
        exact .inl (h.covered.lt_of_wakes hs.keeps hwakes)

variable [tcp.Documented]

omit [DecidableEq ι] in
/-- A segment. -/
theorem Waits.process {s : tcp.Socket} {fut : Future} {w : W} {n : Nat}
    (h : Waits s fut w n) (g : Segment) : Waits (tcp.process s g) fut w n := by
  refine h.next (SmolTcp.Async.process_signals s g) fun hb hst _ => ?_
  rw [SmolTcp.Documented.process_view] at hst ⊢
  cases hslot : fut.slot with
  | recv =>
    by_cases htaken : (tcp.view s).taken g = []
    · exact .inl (hb.process hst (by rw [hslot]; exact htaken))
    · exact .inr (SmolTcp.Async.process_taken s g htaken)
  | send =>
    by_cases hacked : (tcp.view s).acked g = []
    · exact .inl (hb.process hst (by rw [hslot]; exact hacked))
    · exact .inr (SmolTcp.Async.process_acked s g hacked)

omit [DecidableEq ι] in
/-- The end of `TimeWait`. -/
theorem Waits.expire {s : tcp.Socket} {fut : Future} {w : W} {n : Nat}
    (h : Waits s fut w n) : Waits (tcp.expire s) fut w n := by
  refine h.next (SmolTcp.Async.expire_signals s) fun hb hst _ => .inl ?_
  rw [SmolTcp.Documented.expire_view] at hst ⊢
  unfold TcpView.expire at hst ⊢
  split
  · -- the socket has been reset, so the state has changed
    rename_i htw
    rw [htw] at hst
    cases hst
  · exact hb

omit [DecidableEq W] [tcp.Async] [DecidableEq ι] in
/-- The section of `fut` on this socket, in terms of views. -/
theorem step_spec (s : Sleepers tcp ι) (fut : Future) (cx : W) (localPort : UInt16) :
    Future.Step s.self s.view fut (s.step fut cx localPort).1
      (tcp.view (s.step fut cx localPort).2) :=
  Future.step_spec ..

omit [DecidableEq ι] in
/-- A critical section takes back no wake. -/
theorem woken_mono (s : Sleepers tcp ι) (fut : Future) (cx : W) (localPort : UInt16) (w : W) :
    s.woken w ≤ (wakers (s.step fut cx localPort).2).woken w := by
  have hsection := step_registers s.self cx localPort s.socket fut
  by_cases hp : (s.step fut cx localPort).1 = .pending
  · exact (hsection.pending hp).mono w
  · exact (hsection.signals hp).keeps.mono w

omit [DecidableEq ι] in
/-- A critical section of another task. It may be `Pending` in the same slot. -/
theorem Waits.section {s : Sleepers tcp ι} {fut fut' : Future} {w : W} {n : Nat}
    (h : Waits s.socket fut' w n) (cx : W) (localPort : UInt16)
    (hdrains : ∀ len buffer, fut = .read len → fut' = .write buffer →
      ¬ n < s.woken w → ended s.view.state = false → s.view.rx ≠ [] →
      s.view.rx.drop len = [] → s.view.state ≠ .established → False)
    (hkept : fut.Blocked s.view → fut'.slot = fut.slot → w ≠ cx →
      n < (wakers (s.step fut cx localPort).2).woken w) :
    Waits (s.step fut cx localPort).2 fut' w n := by
  have hsection := step_registers s.self cx localPort s.socket fut
  have hspec := s.step_spec fut cx localPort
  by_cases hp : (s.step fut cx localPort).1 = .pending
  · rw [hp] at hspec
    have hregisters := hsection.pending hp
    refine ⟨hregisters.covered_other h.covered (hkept (hspec.pending_iff.mp rfl)), ?_⟩
    refine h.asleep.imp (fun hlt => Nat.lt_of_lt_of_le hlt (hregisters.mono w)) fun hb => ?_
    rw [hspec.pending_same]
    exact hb
  · refine h.next (hsection.signals hp) fun hb hst hsleeps => .inl ?_
    rcases hb.step hspec (fun hopens _ hnext => closed_of_opens hopens hnext) hst with
      hb' | hdrained
    · exact hb'
    · obtain ⟨len, buffer, hread, hwrite, hended, hrx, hrest, hest⟩ := hdrained
      exact (hdrains len buffer hread hwrite hsleeps hended hrx hrest hest).elim

omit [DecidableEq ι] in
/-- A waker that is displaced and woken for it. -/
theorem Waits.woken_of_displaced [tcp.WakesDisplaced] {s : Sleepers tcp ι} {fut fut' : Future}
    {w cx : W} {n : Nat} (h : Waits s.socket fut' w n) (localPort : UInt16)
    (hblocked : fut.Blocked s.view) (hslot : fut'.slot = fut.slot) (hne : w ≠ cx) :
    n < (wakers (s.step fut cx localPort).2).woken w := by
  have hp := (s.step_spec fut cx localPort).pending_iff.mpr hblocked
  have hsection := step_registers s.self cx localPort s.socket fut
  rcases h.covered.slot with hlt | hin
  · exact Nat.lt_of_lt_of_le hlt (s.woken_mono fut cx localPort w)
  · rw [show (s.step fut cx localPort).2 = _ from hsection.registered hp]
    rw [hslot] at hin
    exact Nat.lt_of_le_of_lt h.covered.le (registerWaker_wakes hin hne)

omit [DecidableEq ι] in
/-- A future that has just been `Pending`. -/
theorem Waits.pending {s : Sleepers tcp ι} {fut : Future} {cx : W} {localPort : UInt16}
    (h : (s.step fut cx localPort).1 = .pending) :
    Waits (s.step fut cx localPort).2 fut cx
      ((wakers (s.step fut cx localPort).2).woken cx) where
  covered := ((step_registers s.self cx localPort s.socket fut).pending h).covered
  asleep := by
    have hspec := s.step_spec fut cx localPort
    rw [h] at hspec
    refine .inr ?_
    rw [hspec.pending_same]
    exact hspec.pending_iff.mp rfl

/-- A critical section of task `i`. -/
theorem Inv.polled [tcp.WakesDisplaced] {s : Sleepers tcp ι} (h : s.Inv) {i : ι} {cx : W}
    {localPort : UInt16} {fut : Future} (hi : s.calls i = some fut)
    (hok : ¬ s.Drains (.poll i cx localPort)) :
    (s.polled i fut cx localPort).Inv := by
  intro j w n hj
  rcases update_cases hj with ⟨rfl, hpoll⟩ | ⟨hji, hold⟩
  · -- its own poll was `Pending`
    split at hpoll <;> cases hpoll
    rename_i hpending
    replace hpending : (s.step fut cx localPort).1 = .pending := hpending
    refine ⟨fut, ?_, Waits.pending hpending⟩
    show Function.update s.calls j (fut.rest (s.step fut cx localPort).1) j = _
    rw [Function.update_self, hpending]
    rfl
  · obtain ⟨fut', hfut', hwaits⟩ := h j w n hold
    refine ⟨fut', (Function.update_of_ne hji ..).trans hfut',
      hwaits.section cx localPort ?_ (hwaits.woken_of_displaced localPort)⟩
    rintro len buffer rfl rfl hsleeps hended hrx hrest hest
    exact hok ⟨len, hi, hended, hrx, hrest, hest, j, buffer, w, n, hfut', hold, hsleeps⟩

omit [tcp.Documented] in
/-- Task `i` starts or drops a future, and waits for nothing then. -/
theorem Inv.idle {s : Sleepers tcp ι} (h : s.Inv) (i : ι) (fut : Option Future) :
    Inv { s with
      calls := Function.update s.calls i fut
      pending := Function.update s.pending i none } := by
  intro j w n hj
  rcases update_cases hj with ⟨-, hnone⟩ | ⟨hji, hold⟩
  · cases hnone
  · obtain ⟨fut', hfut', hwaits⟩ := h j w n hold
    exact ⟨fut', (Function.update_of_ne hji ..).trans hfut', hwaits⟩

/-- A step that is not a drain. -/
theorem inv_next [tcp.WakesDisplaced] {s s' : Sleepers tcp ι} {l : Label W ι} (h : s.Inv)
    (hok : ¬ s.Drains l) (hnext : s.next l = some s') : s'.Inv := by
  cases l with
  | start i fut =>
    obtain ⟨-, hs'⟩ := Option.ite_none_right_eq_some.mp hnext
    cases hs'
    exact h.idle i (some fut)
  | poll i cx localPort =>
    obtain ⟨fut, hi, rfl⟩ := Option.map_eq_some_iff.mp hnext
    exact h.polled hi hok
  | drop i =>
    obtain ⟨fut, -, rfl⟩ := Option.map_eq_some_iff.mp hnext
    exact h.idle i none
  | segment g =>
    cases hnext
    intro j w n hj
    obtain ⟨fut, hfut, hwaits⟩ := h j w n hj
    exact ⟨fut, hfut, hwaits.process g⟩
  | expire =>
    cases hnext
    intro j w n hj
    obtain ⟨fut, hfut, hwaits⟩ := h j w n hj
    exact ⟨fut, hfut, hwaits.expire⟩

omit [DecidableEq ι] in
/-- A future that is blocked is not ready. -/
theorem Inv.noSleep {s : Sleepers tcp ι} (h : s.Inv) : s.NoSleep := by
  rintro i fut w n hi hpending ⟨cx, localPort, hready⟩
  obtain ⟨fut', hi', hwaits⟩ := h i w n hpending
  cases hi.symm.trans hi'
  refine hwaits.asleep.resolve_right fun hb => hready ?_
  exact (s.step_spec fut cx localPort).pending_iff.mpr hb

/-- **No future sleeps through its own readiness** in every run in which no `read`
drains the socket under a `write`. -/
theorem noSleep_of_not_drains [tcp.WakesDisplaced] {s : Sleepers tcp ι}
    (h : (machine tcp ι).ReachableBy (fun s l => ¬ s.Drains l) s) : s.NoSleep := by
  refine Inv.noSleep (h.invariant (I := Inv) ?_ fun _ _ _ hinv hok => inv_next hinv hok)
  rintro _ ⟨self, rfl⟩ i w n hi
  cases hi

/-- The socket of the example, and its tasks: 0 has accepted the connection, 1 writes
and 2 reads, each with its own waker. -/
abbrev Example (wakes : Bool) := Sleepers (asyncReference (Fin 3) wakes) (Fin 3)

def exampleMachine (wakes : Bool) : Machine (Example wakes) (Label (Fin 3) (Fin 3)) :=
  machine (asyncReference (Fin 3) wakes) (Fin 3)

/-- The peer connects, sends an octet and closes; 0 closes too, and the `write` of 1
waits since there is something left to read. -/
def writeWaits : List (Label (Fin 3) (Fin 3)) :=
  [.start 0 (.accept 80), .poll 0 0 0, .poll 0 0 0, .segment (fromRemote .syn false 0 []),
    .poll 0 0 0, .poll 0 0 0, .segment (fromRemote .none true 0 []),
    .segment (fromRemote .fin true 0 [7]), .start 0 .close, .poll 0 0 0,
    .start 1 (.write [42]), .poll 1 1 0]

def newSocket {wakes : Bool} : Example wakes :=
  .new 0

/-- 2 reads it, and the `write` would return 0. -/
theorem write_sleeps :
    ¬ ∀ s : Example true, (exampleMachine true).Reachable s → s.NoSleep := by
  intro h
  have hinit : (exampleMachine true).Reachable newSocket := .init ⟨0, rfl⟩
  obtain ⟨s, hrun, hcall, hpending, hready, hwoken⟩ : ∃ s : Example true,
      (exampleMachine true).run newSocket
          (writeWaits ++ [.start 2 (.read 16), .poll 2 2 0]) = some s ∧
        s.calls 1 = some (.write [42]) ∧ s.pending 1 = some (1, 0) ∧
        (s.step (.write [42]) 1 0).1 = .ready (.ok (.count 0)) ∧ s.woken 1 = 0 :=
    ⟨_, rfl, rfl, rfl, rfl, rfl⟩
  have hne : (s.step (.write [42]) 1 0).1 ≠ .pending := by
    rw [hready]
    exact Progress.noConfusion
  have hlt := h s (hinit.run hrun) 1 _ 1 0 hcall hpending ⟨1, 0, hne⟩
  rw [hwoken] at hlt
  cases hlt

/-- A `read` of 1 waits, and an octet arrives. -/
def octetArrives : List (Label (Fin 3) (Fin 3)) :=
  writeWaits.take 7 ++
    [.start 1 (.read 16), .poll 1 1 0, .segment (fromRemote .none true 0 [7])]

/-- No `read` finds octets, so none drains the socket. -/
def readsNothing (s : Example true) : Label (Fin 3) (Fin 3) → Bool
  | .poll i _ _ =>
    match s.calls i with
    | some (.read _) => s.view.rx.isEmpty
    | _ => true
  | _ => true

theorem not_drains {s : Example true} {l : Label (Fin 3) (Fin 3)}
    (h : readsNothing s l = true) : ¬ s.Drains l := by
  intro hdrains
  cases l with
  | poll i cx localPort =>
    obtain ⟨len, hi, -, hrx, -⟩ := hdrains
    simp only [readsNothing, hi] at h
    exact hrx (List.isEmpty_iff.mp h)
  | _ => exact hdrains

/-- The `read` is ready, and woken. -/
theorem read_wakes : ∃ s : Example true,
    (exampleMachine true).run newSocket octetArrives = some s ∧
      s.calls 1 = some (.read 16) ∧ s.pending 1 = some (1, 0) ∧ s.woken 1 = 1 ∧
      s.NoSleep := by
  have hinit : (exampleMachine true).ReachableBy (fun s l => ¬ s.Drains l) newSocket :=
    .init ⟨0, rfl⟩
  have hrun : (exampleMachine true).runBy readsNothing newSocket octetArrives =
      (exampleMachine true).run newSocket octetArrives := rfl
  have hs := hinit.runBy (fun _ _ => not_drains) hrun
  exact ⟨_, rfl, rfl, rfl, rfl, noSleep_of_not_drains hs⟩

end Sleepers

end RustyHermit.Net
