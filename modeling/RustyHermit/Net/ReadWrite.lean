import RustyHermit.Net.Conn
import RustyHermit.Smoltcp.Reference

/-!
# What `read` and `write` return

The two halves of a TCP connection close independently, but `read` and `write`
look at more than their own half.

- `read` gives up in the five states of `ended`, before it looks at the receive
  buffer: once the local side has shut down its sending direction, bytes of the
  peer are no longer delivered (`read_after_shutdown`). In all other states it
  delivers what is buffered, and reports the end of the stream only after the
  peer's FIN (`read_result`).
- `write` asks `may_recv()`, a predicate of the receive half, whether the stream
  has ended. In `CloseWait` with nothing left to read it reports the end of the
  stream although the send half is open (`write_after_fin`); `write_proper_iff`
  says exactly when it reports what the send half says.
-/

namespace RustyHermit.Net.Conn

open RustyHermit.Smoltcp

variable {W : Type} {tcp : SmolTcp W} {ι : Type}

/-- `connect` to a remote host, and the handshake. -/
def connected : List (Label Unit Unit) :=
  [.open () (.connect remoteHostText 80), .poll () () 49152,
    .segment (fromRemote .syn true 0 []), .poll () () 0]

/-! ## Reading -/

/-- What is asked of a read: it delivers what is buffered, `Ok(0)` is the end of
the peer's stream, and an error is a reset. -/
structure ReadProper (s : Conn tcp ι) (len : Nat) (progress : Progress) : Prop where
  delivers : s.view.rx ≠ [] → progress = .ready (.ok (.bytes (s.view.rx.take len)))
  ends : progress = .ready (.ok (.bytes [])) →
    s.history.fin = true ∧ s.view.rx = []
  fails : ∀ e, progress = .ready (.error e) → s.history.reset = true

/-- The local side shuts down its sending direction, the peer answers with an
octet, and `read` fails. -/
theorem read_after_shutdown :
    ¬ ∀ (s : Conn (reference Unit) Unit) (len : Nat) (cx : Unit) (localPort : UInt16),
      (machine (reference Unit) Unit).Reachable s → s.calls () = some (.read len) →
        0 < len → s.ReadProper len (s.step (.read len) cx localPort).1 := by
  intro h
  obtain ⟨s, hrun, hcall, hrx, hresult⟩ : ∃ s : Conn (reference Unit) Unit,
      (machine (reference Unit) Unit).run (new 0)
        (connected ++ [.call () .close, .poll () () 0, .poll () () 0,
          .segment (fromRemote .none true 0 [42]), .call () (.read 1)]) = some s ∧
        s.calls () = some (.read 1) ∧ s.view.rx = [42] ∧
        (s.step (.read 1) () 0).1 = .ready (.error .illegal) :=
    ⟨_, rfl, rfl, rfl, rfl⟩
  have hproper := h s 1 () 0 ((reachable_new 0).run hrun) hcall Nat.one_pos
  have hdelivers := hproper.delivers (by rw [hrx]; nofun)
  rw [hresult] at hdelivers
  cases hdelivers

/-- What a read returns: `Ok(n)` with what is buffered, `Ok(0)` only at the end
of the stream, an error exactly in the states of `ended`. -/
structure ReadResult (v : TcpView) (k : History) (len : Nat) (progress : Progress) :
    Prop where
  delivers : ended v.state = false → v.rx ≠ [] →
    progress = .ready (.ok (.bytes (v.rx.take len))) ∧ 0 < min len v.rx.length
  ends : progress = .ready (.ok (.bytes [])) →
    v.rx = [] ∧ (k.peer.isSome = true → k.fin = true)
  fails : (∃ e, progress = .ready (.error e)) ↔ ended v.state = true
  ended : ended v.state = true → k.reset = true ∨ k.closes ≠ []

/-- Outside `ended`, an established connection that may not receive any more has
got the peer's FIN. -/
theorem fin_of_readEnd {v : TcpView} {k : History} (h : Sound v k)
    (hended : Net.ended v.state = false) (hmay : v.mayRecv = false)
    (hpeer : k.peer.isSome = true) : k.fin = true := by
  have hbefore : ¬(v.state = .listen ∨ v.state = .synSent ∨ v.state = .synReceived) := by
    intro hst
    rw [h.before hst] at hpeer
    cases hpeer
  refine h.fin ?_
  unfold TcpView.mayRecv at hmay
  revert hended hmay hbefore
  cases v.state <;> simp [Net.ended]

/-- The step of a read gives this result. -/
theorem readResult_of_step {self : Handle} {v v' : TcpView} {k : History} {len : Nat}
    {progress : Progress} (h : Sound v k) (hlen : 0 < len)
    (hended : Net.ended v.state = true → k.reset = true ∨ k.closes ≠ [])
    (hstep : Future.Step self v (.read len) progress v') :
    ReadResult v k len progress := by
  cases hstep with
  | readError e he =>
    exact ⟨fun hne => absurd (he.symm.trans hne) nofun, nofun,
      iff_of_true ⟨e, rfl⟩ he, hended⟩
  | readBytes hne hcan =>
    have hrx := v.canRecv_iff.mp hcan
    have hnot : ¬ Net.ended v.state = true := Bool.eq_false_iff.mp hne
    refine ⟨fun _ _ => ⟨rfl, ?_⟩, fun htake => ?_, ?_, hended⟩
    · exact Nat.lt_min.mpr ⟨hlen, List.length_pos_iff.mpr hrx⟩
    · rcases (by simpa using htake : len = 0 ∨ v.rx = []) with hzero | hnil
      · exact absurd hzero (Nat.ne_of_gt hlen)
      · exact absurd hnil hrx
    · exact iff_of_false (by rintro ⟨e, ⟨⟩⟩) hnot
  | readEnd hne hmay =>
    -- buffered octets may always be received, so there are none
    have hnot : ¬ Net.ended v.state = true := Bool.eq_false_iff.mp hne
    refine ⟨fun _ hrx => ?_, fun _ => ⟨?_, fin_of_readEnd h hne hmay⟩, ?_, hended⟩
    · exact absurd ((TcpView.mayRecv_of_rx hrx).symm.trans hmay) nofun
    · by_contra hrx
      exact absurd ((TcpView.mayRecv_of_rx hrx).symm.trans hmay) nofun
    · exact iff_of_false (by rintro ⟨e, ⟨⟩⟩) hnot
  | readPending hne hmay hcan =>
    have hnot : ¬ Net.ended v.state = true := Bool.eq_false_iff.mp hne
    refine ⟨fun _ hrx => ?_, nofun, ?_, hended⟩
    · exact absurd ((v.canRecv_iff.mpr hrx).symm.trans hcan) nofun
    · exact iff_of_false (by rintro ⟨e, ⟨⟩⟩) hnot

/-- `read` gives up on a reset connection, or after the local side has closed. -/
theorem Inv.ended_cases {s : Conn tcp ι} (h : s.Inv) (hst : s.stage = .handed)
    (hended : Net.ended s.view.state = true) :
    s.history.reset = true ∨ s.history.closes ≠ [] := by
  by_cases hclosed : s.view.state = .closed
  · exact (h.handed hst).2 hclosed
  · exact .inr (h.sound.shut (sendClosed_of_ended hended) hclosed)

/-- **What `read` returns**, in every reachable state and for every non-empty
buffer. Outside the states of `ended` it delivers what is buffered; it reports
the end of the stream only when nothing is buffered, and on an established
connection only after the peer's FIN; it fails exactly in the states of `ended`,
that is after a reset or after the local side has closed. -/
theorem read_result [tcp.Documented] [DecidableEq ι] {s : Conn tcp ι}
    (h : (machine tcp ι).Reachable s) {i : ι} {len : Nat}
    (hi : s.calls i = some (.read len)) (hlen : 0 < len) (cx : W) (localPort : UInt16) :
    ReadResult s.view s.history len (s.step (.read len) cx localPort).1 := by
  have hinv := Reachable.inv h
  have hst : s.stage = .handed := by
    rcases hinv.caller hi with ⟨-, hopening, -⟩ | ⟨hst, -, -⟩
    · exact hopening.elim
    · exact hst
  exact readResult_of_step hinv.sound hlen (hinv.ended_cases hst)
    (s.step_spec (.read len) cx localPort)

/-- The peer's last octets are read in `CloseWait`. -/
theorem read_result_after_fin : ∃ s : Conn (reference Unit) Unit,
    (machine (reference Unit) Unit).run (new 0)
      (connected ++ [.segment (fromRemote .fin true 0 [42]), .call () (.read 1)])
        = some s ∧
      (s.step (.read 1) () 0).1 = .ready (.ok (.bytes [42])) := by
  obtain ⟨s, hrun, hcall, hended, hrx⟩ : ∃ s : Conn (reference Unit) Unit,
      (machine (reference Unit) Unit).run (new 0)
        (connected ++ [.segment (fromRemote .fin true 0 [42]), .call () (.read 1)])
          = some s ∧
        s.calls () = some (.read 1) ∧ ended s.view.state = false ∧ s.view.rx = [42] :=
    ⟨_, rfl, rfl, rfl, rfl⟩
  have hresult := read_result ((reachable_new 0).run hrun) hcall Nat.one_pos () 0
  have hdelivers := (hresult.delivers hended (by rw [hrx]; nofun)).1
  rw [hrx] at hdelivers
  exact ⟨s, hrun, hdelivers⟩

/-! ## Writing -/

/-- What is asked of a write: while the send half is open and has room it
accepts what fits, and `Ok(0)` means that the send half has been closed. -/
structure WriteProper (v : TcpView) (data : List UInt8) (progress : Progress) :
    Prop where
  accepts : v.maySend = true → 0 < v.room →
    progress = .ready (.ok (.count (min data.length v.room))) ∧
      0 < min data.length v.room
  ends : progress = .ready (.ok (.count 0)) → v.state.sendClosed = true

/-- The peer shuts down its sending direction and waits for an answer; `write`
returns `Ok(0)`. -/
theorem write_after_fin :
    ¬ ∀ (s : Conn (reference Unit) Unit) (data : List UInt8) (cx : Unit)
      (localPort : UInt16),
      (machine (reference Unit) Unit).Reachable s →
        s.calls () = some (.write data) → data ≠ [] →
        WriteProper s.view data (s.step (.write data) cx localPort).1 := by
  intro h
  obtain ⟨s, hrun, hcall, hst, hresult⟩ : ∃ s : Conn (reference Unit) Unit,
      (machine (reference Unit) Unit).run (new 0)
        (connected ++ [.segment (fromRemote .fin true 0 []), .call () (.write [42])])
          = some s ∧
        s.calls () = some (.write [42]) ∧ s.view.state = .closeWait ∧
        (s.step (.write [42]) () 0).1 = .ready (.ok (.count 0)) :=
    ⟨_, rfl, rfl, rfl, rfl⟩
  have hends := (h s [42] () 0 ((reachable_new 0).run hrun) hcall nofun).ends hresult
  rw [hst] at hends
  cases hends

/-- **Exactly when `write` reports the send half**, in every state and for every
non-empty slice: the receive half may still receive, or the send half is
closed. -/
theorem write_proper_iff [tcp.Documented] (s : Conn tcp ι) {data : List UInt8}
    (hdata : data ≠ []) (cx : W) (localPort : UInt16) :
    WriteProper s.view data (s.step (.write data) cx localPort).1 ↔
      s.view.mayRecv = true ∨ s.view.state.sendClosed = true := by
  have hstep := s.step_spec (.write data) cx localPort
  have hlen : 0 < data.length := List.length_pos_iff.mpr hdata
  generalize (s.step (.write data) cx localPort).1 = progress at hstep ⊢
  generalize tcp.view (s.step (.write data) cx localPort).2 = v at hstep
  cases hstep with
  | writeError e hended =>
    have hclosed := sendClosed_of_ended hended
    refine iff_of_true ⟨fun hmay => ?_, nofun⟩ (.inr hclosed)
    rw [TcpView.maySend_of_sendClosed hclosed] at hmay
    cases hmay
  | writeEnd hended hmay =>
    -- `Ok(0)` is right only if the send half happens to be closed too
    constructor
    · exact fun hproper => .inr (hproper.ends rfl)
    · rintro (hrecv | hclosed)
      · rw [hmay] at hrecv
        cases hrecv
      · refine ⟨fun hsend => ?_, fun _ => hclosed⟩
        rw [TcpView.maySend_of_sendClosed hclosed] at hsend
        cases hsend
  | writeBytes _ hmay hcan =>
    have hroom : 0 < s.view.room := of_decide_eq_true (Bool.and_eq_true_iff.mp hcan).2
    have hpos : 0 < min data.length s.view.room := Nat.lt_min.mpr ⟨hlen, hroom⟩
    refine iff_of_true ⟨fun _ _ => ⟨rfl, hpos⟩, fun hzero => ?_⟩ (.inl hmay)
    have hcount : min data.length s.view.room = 0 := by simpa using hzero
    exact absurd hcount (Nat.ne_of_gt hpos)
  | writePending _ hmay hcan =>
    refine iff_of_true ⟨fun hsend hroom => ?_, nofun⟩ (.inl hmay)
    have hcan' : s.view.canSend = true :=
      Bool.and_eq_true_iff.mpr ⟨hsend, decide_eq_true hroom⟩
    rw [hcan] at hcan'
    cases hcan'

/-- With an octet of the peer still to be read, the same write is accepted. -/
theorem write_proper_before_end : ∃ s : Conn (reference Unit) Unit,
    (machine (reference Unit) Unit).run (new 0)
      (connected ++ [.segment (fromRemote .fin true 0 [7]), .call () (.write [42])])
        = some s ∧
      s.view.state = .closeWait ∧
      WriteProper s.view [42] (s.step (.write [42]) () 0).1 := by
  obtain ⟨s, hrun, hst, hmay⟩ : ∃ s : Conn (reference Unit) Unit,
      (machine (reference Unit) Unit).run (new 0)
        (connected ++ [.segment (fromRemote .fin true 0 [7]), .call () (.write [42])])
          = some s ∧
        s.view.state = .closeWait ∧ s.view.mayRecv = true :=
    ⟨_, rfl, rfl, rfl⟩
  exact ⟨s, hrun, hst, (write_proper_iff s (by simp) () 0).mpr (.inl hmay)⟩

end RustyHermit.Net.Conn
