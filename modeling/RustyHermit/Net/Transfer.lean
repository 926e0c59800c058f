import RustyHermit.Net.Conn
import RustyHermit.Smoltcp.Reference

/-!
# Bytes on a connection

Any number of threads read and write on one handle, each future is polled any
number of times, and segments are processed in between.

- `bytes_moved_once`: nothing is lost, doubled or reordered in either direction.
  What reads have returned, followed by the receive buffer, is what the peer has
  sent; what the peer has acknowledged, followed by the send buffer, is what
  writes have reported as accepted.
- `close_flushes`: with calls of `close` among them, `TcpSocket::close` is
  called on an empty send queue only, and once a `close` has returned `Ok`,
  every accepted byte has been acknowledged and none is accepted any more.
-/

namespace RustyHermit.Net.Conn

open RustyHermit.Smoltcp

variable {W : Type} {tcp : SmolTcp W} {ι : Type}

/-! ## Reads and writes -/

/-- A `Pending` poll, and a return of an error or of `Ok(0)`. -/
def MovesNothing : Progress → Prop
  | .pending | .ready (.error _) => True
  | .ready (.ok (.bytes bytes)) => bytes = []
  | .ready (.ok (.count n)) => n = 0
  | _ => False

/-- Such a section leaves both buffers alone. -/
theorem buffers_of_movesNothing {self : Handle} {v v' : TcpView} {fut : Future}
    {progress : Progress} (hstep : Future.Step self v fut progress v')
    (hnothing : MovesNothing progress) : v'.rx = v.rx ∧ v'.tx = v.tx := by
  cases hstep with
  | connectStart | acceptStart | close => exact hnothing.elim
  | @readBytes len _ _ =>
    refine ⟨?_, rfl⟩
    show v.rx.drop len = v.rx
    rcases List.take_eq_nil_iff.mp hnothing with hzero | hnil
    · rw [hzero, List.drop_zero]
    · rw [hnil, List.drop_nil]
  | @writeBytes buffer _ _ _ =>
    refine ⟨rfl, ?_⟩
    show v.tx ++ buffer.take v.room = v.tx
    have htake : buffer.take v.room = buffer.take (min buffer.length v.room) := by
      rw [Nat.min_comm, ← List.take_eq_take_min]
    rw [htake, show min buffer.length v.room = 0 from hnothing, List.take_zero,
      List.append_nil]
  | _ => exact ⟨rfl, rfl⟩

/-- `close`, in either phase. -/
def closes : Future → Bool
  | .close | .closeWait => true
  | _ => false

/-- A step that does not start a `close`: connecting and accepting, reads and
writes, segments. -/
def readsAndWrites : Label W ι → Bool
  | .call _ fut => !closes fut
  | _ => true

/-- Nobody has closed the socket. -/
structure Unclosed (s : Conn tcp ι) : Prop where
  calls : ∀ i fut, s.calls i = some fut → closes fut = false
  closes : s.history.closes = []
  expired : s.history.expired = false

/-- A section of a future other than `close` records no close, and leaves no
`close` behind. -/
theorem unclosed_step {self : Handle} {v v' : TcpView} {k : History} {fut : Future}
    {progress : Progress} (hfut : closes fut = false)
    (hstep : Future.Step self v fut progress v') :
    (k.record v fut progress).closes = k.closes ∧
    (k.record v fut progress).expired = k.expired ∧
    ∀ fut', fut.rest progress = some fut' → closes fut' = false := by
  cases hstep with
  | closeError | closePending | close | closed | closeWaiting => cases hfut
  | _ =>
    refine ⟨rfl, rfl, ?_⟩
    rintro _ ⟨⟩ <;> rfl

variable [DecidableEq ι]

/-- A thread that takes up another future, or none, that is no `close`. -/
theorem calls_update {s : Conn tcp ι} (h : s.Unclosed) (i : ι) (next : Option Future)
    (hnext : ∀ fut, next = some fut → closes fut = false) :
    ∀ j fut, Function.update s.calls i next j = some fut → closes fut = false := by
  intro j fut hj
  rcases update_cases hj with ⟨-, hj⟩ | ⟨-, hj⟩
  · exact hnext fut hj
  · exact h.calls j fut hj

variable [tcp.Documented]

/-- As nobody closes, nobody has closed. -/
theorem unclosed_next {s s' : Conn tcp ι} {l : Label W ι} (hinv : s.Inv)
    (h : s.Unclosed) (hok : readsAndWrites l = true) (hnext : s.next l = some s') :
    s'.Unclosed := by
  cases l with
  | «open» i fut =>
    obtain ⟨⟨-, hopens⟩, hs'⟩ := Option.ite_none_right_eq_some.mp hnext
    cases hs'
    refine ⟨calls_update h i _ ?_, h.closes, h.expired⟩
    rintro _ ⟨⟩
    cases fut <;> first | rfl | cases hopens
  | call i fut =>
    obtain ⟨-, hs'⟩ := Option.ite_none_right_eq_some.mp hnext
    cases hs'
    refine ⟨calls_update h i _ ?_, h.closes, h.expired⟩
    rintro _ ⟨⟩
    exact Bool.not_eq_true' _ |>.mp hok
  | poll i cx localPort =>
    obtain ⟨fut, hi, rfl⟩ := Option.map_eq_some_iff.mp hnext
    obtain ⟨hcloses, hexpired, hrest⟩ :=
      unclosed_step (k := s.history) (h.calls i fut hi) (s.step_spec fut cx localPort)
    exact ⟨calls_update h i _ hrest, hcloses.trans h.closes, hexpired.trans h.expired⟩
  | drop i =>
    obtain ⟨fut, -, rfl⟩ := Option.map_eq_some_iff.mp hnext
    exact ⟨calls_update h i none nofun, h.closes, h.expired⟩
  | segment g =>
    cases hnext
    exact ⟨h.calls, h.closes, h.expired⟩
  | expire =>
    cases hnext
    -- `TimeWait` is entered after a local close only
    have hst : s.view.state ≠ .timeWait := fun hst =>
      hinv.sound.shut (by rw [hst]; rfl) (by rw [hst]; nofun) h.closes
    refine ⟨h.calls, h.closes, ?_⟩
    rw [(expire_same s.history hst).2]
    exact h.expired

/-- **Bytes are moved exactly once**: in every state a run of reads and writes
leads to, each direction's stream is what has been passed on followed by what is
buffered; and a section that moves nothing leaves both buffers alone. -/
theorem bytes_moved_once {s : Conn tcp ι}
    (h : (machine tcp ι).ReachableBy (fun _ l => readsAndWrites l = true) s) :
    s.history.delivered ++ s.view.rx = s.history.received ∧
    s.history.acked ++ s.view.tx = s.history.accepted ∧
    ∀ i fut cx localPort, s.calls i = some fut →
      MovesNothing (s.step fut cx localPort).1 →
        (tcp.view (s.step fut cx localPort).2).rx = s.view.rx ∧
        (tcp.view (s.step fut cx localPort).2).tx = s.view.tx := by
  have hinv := Reachable.inv h.reachable
  have hunclosed : s.Unclosed := h.invariant_under (I := Unclosed) (J := Inv)
    (fun _ hs => Reachable.inv hs.reachable)
    (by
      rintro _ ⟨self, rfl⟩
      exact ⟨nofun, rfl, rfl⟩)
    (fun _ _ _ hinv hs hok hnext => unclosed_next hinv hs hok hnext)
  refine ⟨hinv.sound.received hunclosed.expired, hinv.sound.sent, ?_⟩
  intro i fut cx localPort _ hnothing
  exact buffers_of_movesNothing (s.step_spec fut cx localPort) hnothing

/-- Two threads use a connection: a read finds nothing and is polled again
after data has come, a write of another thread is half acknowledged. -/
def readAndWrite : List (Label Unit Bool) :=
  [.open true (.connect remoteHostText 80), .poll true () 49152,
    .segment (fromRemote .syn true 0 []), .poll true () 0,
    .call true (.read 2), .poll true () 0, .call false (.write [1, 2]), .poll false () 0,
    .segment (fromRemote .none true 1 [7, 8, 9]), .poll true () 0]

/-- After that run each octet is in one place. -/
theorem bytes_moved_by_two : ∃ s : Conn (reference Unit) Bool,
    (machine (reference Unit) Bool).run (new 0) readAndWrite = some s ∧
      s.history.delivered ++ s.view.rx = s.history.received ∧
      s.history.acked ++ s.view.tx = s.history.accepted ∧
      s.history.received = [7, 8, 9] ∧ s.history.accepted = [1, 2] := by
  obtain ⟨s, hrun, hrunBy, hreceived, haccepted⟩ : ∃ s : Conn (reference Unit) Bool,
      (machine (reference Unit) Bool).run (new 0) readAndWrite = some s ∧
        (machine (reference Unit) Bool).runBy (fun _ => readsAndWrites) (new 0)
          readAndWrite = some s ∧
        s.history.received = [7, 8, 9] ∧ s.history.accepted = [1, 2] :=
    ⟨_, rfl, rfl, rfl, rfl⟩
  have hreach : (machine (reference Unit) Bool).ReachableBy
      (fun _ l => readsAndWrites l = true) s :=
    Machine.ReachableBy.runBy (fun _ _ hl => hl) (.init ⟨0, rfl⟩) hrunBy
  have hmoved := bytes_moved_once hreach
  exact ⟨s, hrun, hmoved.1, hmoved.2.1, hreceived, haccepted⟩

/-! ## Closing -/

/-- Once the socket has been closed, a write is not accepted. -/
theorem write_after_close {self : Handle} {v v' : TcpView} {k : History}
    {data : List UInt8} {n : Nat} (h : Sound v k) (hcloses : k.closes ≠ [])
    (hstep : Future.Step self v (.write data) (.ready (.ok (.count n))) v') : n = 0 := by
  cases hstep with
  | writeEnd => rfl
  | writeBytes _ _ hcan =>
    have hmay : v.maySend = true := (Bool.and_eq_true_iff.mp hcan).1
    rw [TcpView.maySend_of_sendClosed (h.closes hcloses).2] at hmay
    cases hmay

/-- **`close` flushes before it ends the stream**: `TcpSocket::close` is called
on an empty send queue only; and once a `close` has returned `Ok`, every byte a
write has reported as accepted is acknowledged, and no write is accepted. -/
theorem close_flushes {s : Conn tcp ι} (h : (machine tcp ι).Reachable s) :
    (∀ n ∈ s.history.closes, n = 0) ∧
    (s.history.closed = true →
      s.history.acked = s.history.accepted ∧
      ∀ i data cx localPort n, s.calls i = some (.write data) →
        (s.step (.write data) cx localPort).1 = .ready (.ok (.count n)) → n = 0) := by
  have hsound := (Reachable.inv h).sound
  refine ⟨hsound.flushed, fun hclosed => ?_⟩
  have hcloses := hsound.closed hclosed
  constructor
  · have hsent := hsound.sent
    rwa [(hsound.closes hcloses).1, List.append_nil] at hsent
  · intro i data cx localPort n _ hcount
    have hstep := s.step_spec (.write data) cx localPort
    rw [hcount] at hstep
    exact write_after_close hsound hcloses hstep

/-- A write, then a `close` that waits for its acknowledgement. -/
def writeAndClose : List (Label Unit Bool) :=
  [.open true (.connect remoteHostText 80), .poll true () 49152,
    .segment (fromRemote .syn true 0 []), .poll true () 0,
    .call false (.write [1, 2]), .poll false () 0, .call true .close, .poll true () 0,
    .segment (fromRemote .none true 2 []), .poll true () 0, .poll true () 0]

/-- The `close` of that run returns after the octets have been acknowledged. -/
theorem close_flushes_write : ∃ s : Conn (reference Unit) Bool,
    (machine (reference Unit) Bool).run (new 0) writeAndClose = some s ∧
      s.history.closed = true ∧ s.history.accepted = [1, 2] ∧
      s.history.acked = s.history.accepted := by
  obtain ⟨s, hrun, hclosed, haccepted⟩ : ∃ s : Conn (reference Unit) Bool,
      (machine (reference Unit) Bool).run (new 0) writeAndClose = some s ∧
        s.history.closed = true ∧ s.history.accepted = [1, 2] :=
    ⟨_, rfl, rfl, rfl⟩
  have hflushed := (close_flushes ((reachable_new 0).run hrun)).2 hclosed
  exact ⟨s, hrun, hclosed, haccepted, hflushed.1⟩

end RustyHermit.Net.Conn
