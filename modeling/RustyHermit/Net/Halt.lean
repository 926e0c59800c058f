import RustyHermit.Net.Hosted
import RustyHermit.Smoltcp.Reference

/-!
# Where programs on sockets come to a halt

TCP delivers what it can: as long as there is an octet that its receiver has room for, or one
that is not acknowledged yet, there is a segment that it may still bring. If nothing of this
kind can happen any more, and no call can return, then the two programs could not go on over
a stream either (`Hosted.stuck_of_halted`, `Hosted.over_stream`).
-/

namespace RustyHermit.Net

open RustyHermit.Smoltcp Duplex

variable {W : Type} {tcp : SmolTcp W} {σ τ : Type}

/-! ## A connection that was not reset -/

/-- A socket is closed only after the FIN of its peer, and once it is handed over it does not
listen. -/
structure Up (stage : Stage Unit) (call : Option Future) (v : TcpView) (k : History) : Prop where
  fin : v.state = .closeWait ∨ v.state = .closing ∨ v.state = .lastAck ∨ v.state = .timeWait →
    k.fin = true
  handed : stage = .handed ∨ call = some .acceptPeer → k.reset = false →
    v.state ≠ .listen ∧ v.state ≠ .synSent ∧ (v.state = .closed → k.fin = true)

namespace Up

variable {stage : Stage Unit} {call : Option Future} {v : TcpView} {k : History}

theorem segment (h : Up stage call v k) (g : Segment) :
    Up stage call (v.process g) (k.segment v g) := by
  obtain ⟨hfin, hhanded⟩ := h
  have hstep := TcpState.process_step v.state g
  constructor
  · simp only [TcpView.process, History.segment, History.takes]
    generalize v.state.process g = st' at hstep
    generalize v.state = st at hstep hfin
    cases hstep <;> simp_all
  · intro hst
    replace hhanded := hhanded hst
    simp only [TcpView.process, History.segment, History.takes]
    generalize v.state.process g = st' at hstep
    generalize v.state = st at hstep hfin hhanded
    cases hstep with
    | reset hrst _ _ hne => simp [hrst, Ne.symm hne]
    | _ => simp_all

theorem expire (h : Up stage call v k) : Up stage call v.expire (k.expire v) := by
  by_cases hst : v.state = .timeWait
  · have hfin := h.fin (.inr (.inr (.inr hst)))
    have hv : v.expire = v.opened .closed .unspecified := by
      simp only [TcpView.expire, hst]
    rw [hv]
    exact ⟨fun _ => hfin, fun _ _ => ⟨fun h => (by cases h), fun h => (by cases h), fun _ => hfin⟩⟩
  · obtain ⟨hv, hk⟩ := expire_same k hst
    rw [hv, hk]
    exact h

/-- A section of a call that leaves the state alone. -/
theorem same {stage' : Stage Unit} {call' : Option Future} {v' : TcpView} {k' : History}
    (h : Up stage call v k) (hstate : v'.state = v.state) (hfin : k'.fin = k.fin)
    (hreset : k'.reset = k.reset)
    (hstage : stage' = .handed ∨ call' = some .acceptPeer →
      stage = .handed ∨ call = some .acceptPeer) : Up stage' call' v' k' := by
  constructor
  · rw [hstate, hfin]
    exact h.fin
  · rw [hstate, hfin, hreset]
    exact fun hst => h.handed (hstage hst)

theorem close (h : Up .handed call v k) : Up .handed call v.close k := by
  obtain ⟨hfin, hhanded⟩ := h
  replace hhanded := hhanded (.inl rfl)
  refine ⟨?_, fun _ hreset => ?_⟩
  · simp only [TcpView.close]
    generalize v.state = st at hfin
    cases st <;> simp_all [TcpState.close]
  · obtain ⟨hlisten, hsyn, hclosed⟩ := hhanded hreset
    simp only [TcpView.close]
    generalize v.state = st at hlisten hsyn hclosed
    cases st <;> simp_all [TcpState.close]

/-- A section of a call. -/
theorem step {self : Handle} {v' : TcpView} {fut : Future} {progress : Progress}
    (h : Up stage (some fut) v k)
    (hcaller : (stage = .opening () ∧ Opening v k fut) ∨ (stage = .handed ∧ Using k fut))
    (hstep : Future.Step self v fut progress v') :
    Up (stage.after progress) (fut.rest progress) v' (k.record v fut progress) := by
  rcases hcaller with ⟨rfl, hopening⟩ | ⟨rfl, husing⟩
  · cases hstep with
    | connectStart | acceptStart =>
      refine ⟨?_, ?_⟩
      · rintro (h | h | h | h) <;> cases h
      · rintro (h | h) <;> cases h
    | connected hclosed _ hlisten hsyn _ =>
      exact ⟨h.fin, fun _ _ => ⟨hlisten, hsyn, fun hst => absurd hst hclosed⟩⟩
    | acceptActive hactive =>
      refine ⟨h.fin, fun _ _ => ?_⟩
      have hstates := hopening.2
      unfold TcpView.isActive at hactive
      generalize v.state = st at hactive hstates
      cases st <;> simp_all
    | accepted => exact h.same rfl rfl rfl fun _ => .inr rfl
    | connectError | connectRefused | acceptError | acceptClosed =>
      exact h.same rfl rfl rfl fun hst => by rcases hst with hst | hst <;> cases hst
    | connectPending | acceptPending => exact h.same rfl rfl rfl fun hst => hst
    | _ => exact hopening.elim
  · cases hstep with
    | close => exact (h.close).same rfl rfl rfl fun _ => .inl rfl
    | connectStart | connectError | connected | connectPending | connectRefused =>
      rcases husing with huses | ⟨heq, -⟩
      · cases huses
      · cases heq
    | acceptStart | acceptError | acceptActive | acceptPending | acceptClosed | accepted =>
      rcases husing with huses | ⟨heq, -⟩
      · cases huses
      · cases heq
    | _ => exact h.same rfl rfl rfl fun _ => .inl rfl

end Up

namespace Conn

/-- All of it, of a socket. -/
def IsUp (c : Conn tcp Unit) : Prop :=
  Up c.stage (c.calls ()) c.view c.history

variable [tcp.Documented]

theorem up_next {c c' : Conn tcp Unit} {l : Label W Unit} (h : c.IsUp) (hinv : c.Inv)
    (hnext : c.next l = some c') : c'.IsUp := by
  cases l with
  | «open» i fut =>
    obtain ⟨⟨-, hopens⟩, hc⟩ := Option.ite_none_right_eq_some.mp hnext
    cases hc
    refine h.same rfl rfl rfl fun hst => ?_
    rcases hst with hst | hst
    · cases hst
    · cases hst
      cases hopens
  | call i fut =>
    obtain ⟨⟨hst, -⟩, hc⟩ := Option.ite_none_right_eq_some.mp hnext
    cases hc
    exact h.same rfl rfl rfl fun _ => .inl hst
  | poll i cx localPort =>
    obtain ⟨fut, hfut, rfl⟩ := Option.map_eq_some_iff.mp hnext
    refine Up.step (hfut ▸ h) ?_ (c.step_spec fut cx localPort)
    rcases hinv.caller hfut with ⟨hst, hopening, -⟩ | ⟨hst, husing, -⟩
    · exact .inl ⟨hst, hopening⟩
    · exact .inr ⟨hst, husing⟩
  | drop i =>
    obtain ⟨fut, hfut, rfl⟩ := Option.map_eq_some_iff.mp hnext
    refine h.same rfl rfl rfl fun hst => ?_
    rcases hst with hst | hst
    · rcases hinv.caller hfut with ⟨hopening, -⟩ | ⟨hhanded, -⟩
      · have hdropped : (if c.stage = .opening i then .dropped else c.stage) = Stage.handed := hst
        rw [if_pos hopening] at hdropped
        cases hdropped
      · exact .inl hhanded
    · cases hst
  | segment g =>
    cases hnext
    have hview : tcp.view (tcp.process c.socket g) = c.view.process g :=
      SmolTcp.Documented.process_view ..
    simp only [IsUp, view, hview]
    exact Up.segment h g
  | expire =>
    cases hnext
    have hview : tcp.view (tcp.expire c.socket) = c.view.expire :=
      SmolTcp.Documented.expire_view ..
    simp only [IsUp, view, hview]
    exact Up.expire h

theorem up_new (self : Handle) : (new self : Conn tcp Unit).IsUp := by
  have hview : (new self : Conn tcp Unit).view = ⟨.closed, .unspecified, [], [], 65535⟩ :=
    SmolTcp.Documented.new_view ..
  constructor
  · rw [hview]
    rintro (h | h | h | h) <;> cases h
  · rintro (h | h) <;> cases h

end Conn

/-! ## Nothing more to deliver -/

/-- No octets and no acknowledgement that TCP may bring from `src` would change anything at
`dst`. -/
def Quiet (src dst : Conn tcp Unit) : Prop :=
  ∀ g : Segment, g.control = .none → g.ackFin = false → Ends.Promised src dst g →
    dst.view.process g = dst.view

/-- Where all has come and all is acknowledged, nothing is left to bring. -/
theorem quiet_of_received {src dst : Conn tcp Unit} (hst : dst.view.state = .established)
    (htx : dst.view.tx = []) (hall : dst.history.received = src.history.accepted) :
    Quiet src dst := by
  intro g hcontrol _ hpromised
  have htaken : dst.view.taken g = [] := by
    have hprefix := hpromised.octets
    rw [hall] at hprefix
    have hlength := hprefix.length_le
    rw [List.length_append] at hlength
    exact List.length_eq_zero_iff.mp (by omega)
  have hstate : dst.view.state.process g = .established := by
    rw [hst]
    simp only [TcpState.process, hcontrol, TcpState.advance, ite_self]
  have hremote : dst.view.nextRemote g = dst.view.remote := nextRemote_same (hstate.trans hst.symm)
  rw [TcpView.process, hstate, hremote, htaken, htx, List.drop_nil, List.append_nil, ← hst, ← htx]

/-- Two sockets in use that were not reset, and nothing to deliver in either direction. -/
structure Resting (src dst : Conn tcp Unit) : Prop where
  sound : Sound src.view src.history
  sound' : Sound dst.view dst.history
  kept : Kept src.view src.history
  kept' : Kept dst.view dst.history
  up : src.IsUp
  up' : dst.IsUp
  joined : Ends.Joined src dst
  joined' : Ends.Joined dst src
  handed : src.stage = .handed
  handed' : dst.stage = .handed
  reset : src.history.reset = false
  reset' : dst.history.reset = false
  quiet : Quiet src dst
  quiet' : Quiet dst src

namespace Resting

variable {src dst : Conn tcp Unit}

theorem symm (h : Resting src dst) : Resting dst src :=
  ⟨h.sound', h.sound, h.kept', h.kept, h.up', h.up, h.joined', h.joined, h.handed', h.handed,
    h.reset', h.reset, h.quiet', h.quiet⟩

/-- A plain segment that may come. -/
theorem promised (h : Resting src dst) {ackLen : Nat} {payload : List UInt8}
    (hoctets : dst.history.received ++ payload <+: src.history.accepted)
    (hwindow : dst.view.rx.length + payload.length ≤ 65535)
    (hacks : dst.history.acked.length + ackLen ≤ src.history.received.length) :
    Ends.Promised src dst (fromRemote .none true ackLen payload) := by
  have htaken : dst.view.taken (fromRemote .none true ackLen payload) = payload ∨
      dst.view.taken (fromRemote .none true ackLen payload) = [] := by
    simp only [TcpView.taken, fromRemote, Bool.and_true]
    split
    · exact .inl rfl
    · exact .inr rfl
  have hacked : (dst.view.acked (fromRemote .none true ackLen payload)).length ≤ ackLen := by
    simp only [TcpView.acked, fromRemote, if_true]
    split
    · exact Nat.zero_le _
    · exact Nat.zero_le _
    · exact List.length_take_le _ _
    · exact List.length_take_le _ _
    · exact Nat.zero_le _
  refine ⟨?_, ?_, Nat.le_trans (Nat.add_le_add_left hacked _) hacks, fun hfin => ?_⟩
  · rcases htaken with htaken | htaken <;> rw [htaken]
    · exact hoctets
    · rw [List.append_nil]
      exact h.joined.inOrder
  · rcases htaken with htaken | htaken <;> rw [htaken]
    · exact hwindow
    · exact h.joined.window
  · cases hfin

/-- The handshake is over. -/
theorem not_synReceived (h : Resting src dst) : dst.view.state ≠ .synReceived := by
  intro hst
  have hprefix : dst.history.received ++ [] <+: src.history.accepted := by
    rw [List.append_nil]
    exact h.joined.inOrder
  have hsame := h.quiet (fromRemote .none true 0 []) rfl rfl
    (h.promised hprefix h.joined.window h.joined'.acks)
  have hstate := congrArg TcpView.state hsame
  simp only [TcpView.process, hst] at hstate
  cases hstate

/-- All octets have come, or there is no room for more. -/
theorem received (h : Resting src dst) (hreceives : dst.view.state.receives = true) :
    dst.history.received = src.history.accepted ∨ dst.view.rx.length = 65535 := by
  by_contra hnot
  obtain ⟨hmore, hroom⟩ := not_or.mp hnot
  obtain ⟨rest, hrest⟩ := h.joined.inOrder
  cases rest with
  | nil =>
    rw [List.append_nil] at hrest
    exact hmore hrest
  | cons x rest =>
    have hprefix : dst.history.received ++ [x] <+: src.history.accepted :=
      ⟨rest, by rw [List.append_assoc]; exact hrest⟩
    have hwindow : dst.view.rx.length + [x].length ≤ 65535 :=
      Nat.lt_of_le_of_ne h.joined.window hroom
    have hsame := h.quiet (fromRemote .none true 0 [x]) rfl rfl
      (h.promised hprefix hwindow h.joined'.acks)
    have hrx := congrArg TcpView.rx hsame
    simp only [TcpView.process, TcpView.taken, fromRemote, hreceives, Bool.and_self,
      if_true] at hrx
    have hlength := congrArg List.length hrx
    rw [List.length_append, List.length_singleton] at hlength
    omega

/-- All octets that have come are acknowledged. -/
theorem acked (h : Resting src dst) (hopen : src.view.maySend = true) :
    src.view.tx = [] ∨ src.history.acked.length = dst.history.received.length := by
  by_contra hnot
  obtain ⟨htx, hless⟩ := not_or.mp hnot
  have hacks : src.history.acked.length + 1 ≤ dst.history.received.length :=
    Nat.lt_of_le_of_ne h.joined.acks hless
  have hprefix : src.history.received ++ [] <+: dst.history.accepted := by
    rw [List.append_nil]
    exact h.joined'.inOrder
  have hsame := h.quiet' (fromRemote .none true 1 []) rfl rfl
    (h.symm.promised hprefix h.joined'.window hacks)
  have hdrop := congrArg (fun v : TcpView => v.tx.length) hsame
  have hacked : src.view.acked (fromRemote .none true 1 []) = src.view.tx.take 1 := by
    unfold TcpView.maySend at hopen
    simp only [TcpView.acked, fromRemote]
    generalize src.view.state = st at hopen
    cases st <;> first | rfl | cases hopen
  have hpos := List.length_pos_iff.mpr htx
  simp only [TcpView.process, hacked, List.length_drop, List.length_take] at hdrop
  omega

/-- What has come and is not read waits in the receive buffer. -/
theorem delivered (h : Resting src dst) (hclosed : dst.view.state ≠ .closed) :
    dst.history.delivered ++ dst.view.rx = dst.history.received := by
  refine h.sound'.received ?_
  by_contra hexpired
  exact hclosed (h.kept'.expired (Bool.not_eq_false _ ▸ hexpired))

/-- A sender that has not closed and whose call waits may send. -/
theorem maySend (h : Resting src dst) (hcloses : src.history.closes = [])
    (hended : ended src.view.state = false) : src.view.maySend = true := by
  have hsyn := h.symm.not_synReceived
  obtain ⟨hlisten, hsent, -⟩ := h.up.handed (.inl h.handed) h.reset
  have hshut : ¬(src.view.state.sendClosed = true ∧ src.view.state ≠ .closed) :=
    fun hst => h.sound.shut hst.1 hst.2 hcloses
  unfold TcpView.maySend
  generalize src.view.state = st at hended hsyn hlisten hsent hshut
  cases st <;> simp_all [ended, TcpState.sendClosed]

/-- The other side of a sender that has not closed receives. -/
theorem receives (h : Resting src dst) (hcloses : src.history.closes = []) :
    dst.view.state.receives = true := by
  have hfin : dst.history.fin = false := by
    by_contra hfin
    exact h.joined.fin (Bool.not_eq_false _ ▸ hfin) hcloses
  have hstates := h.up'.fin
  obtain ⟨hlisten, hsent, hclosed⟩ := h.up'.handed (.inl h.handed') h.reset'
  rw [hfin] at hstates hclosed
  generalize dst.view.state = st at hstates hlisten hsent hclosed
  cases st <;> simp_all [TcpState.receives]

/-- A socket in use has come to the end of the stream only if the other side has closed. -/
theorem closes_of_end (h : Resting src dst) (hcloses : dst.history.closes = [])
    (hended : ended dst.view.state = false) (hmay : dst.view.mayRecv = false) :
    src.history.closes ≠ [] := by
  have hsyn := h.not_synReceived
  obtain ⟨hlisten, hsent, -⟩ := h.up'.handed (.inl h.handed') h.reset'
  have hshut : ¬(dst.view.state.sendClosed = true ∧ dst.view.state ≠ .closed) :=
    fun hst => h.sound'.shut hst.1 hst.2 hcloses
  refine h.joined.fin (h.up'.fin (.inl ?_))
  unfold TcpView.mayRecv at hmay
  generalize dst.view.state = st at hended hmay hsyn hlisten hsent hshut
  cases st <;> simp_all [ended, TcpState.sendClosed]

/-- A socket that has come to the end of the stream has read all of it. -/
theorem all_of_end (h : Resting src dst) (hcloses : dst.history.closes = [])
    (hended : ended dst.view.state = false) (hmay : dst.view.mayRecv = false) :
    src.history.accepted = dst.history.delivered := by
  have hrx : dst.view.rx = [] := by
    by_contra hne
    exact Bool.false_ne_true (hmay.symm.trans (TcpView.mayRecv_of_rx hne))
  have hclosed : dst.view.state ≠ .closed := fun hst => by
    rw [hst] at hended
    cases hended
  have hdelivered := h.delivered hclosed
  rw [hrx, List.append_nil] at hdelivered
  rw [hdelivered]
  exact (h.joined.received_eq h.sound (h.closes_of_end hcloses hended hmay)).symm

variable [tcp.Documented]

/-- A write waits only if the buffers of both sides are full. -/
theorem full (h : Resting src dst) (hcloses : src.history.closes = []) {buffer : List UInt8}
    {cx : W} {localPort : UInt16} (hwaits : (src.step (.write buffer) cx localPort).1 = .pending) :
    src.history.accepted.length = dst.history.delivered.length + (65535 + 65535) := by
  have hstep := src.step_spec (.write buffer) cx localPort
  rw [hwaits] at hstep
  generalize tcp.view (src.step (.write buffer) cx localPort).2 = v' at hstep
  cases hstep with
  | writePending hended hmay hcan =>
    have hopen := h.maySend hcloses hended
    have hreceives := h.receives hcloses
    have hclosed : dst.view.state ≠ .closed := by
      intro hst
      rw [hst] at hreceives
      cases hreceives
    have htx : src.view.tx.length = 65535 := by
      have hroom : ¬ 0 < src.view.room := by
        intro hpos
        rw [TcpView.canSend, hopen, decide_eq_true hpos] at hcan
        cases hcan
      have hle := h.kept.tx
      rw [h.kept.capacity] at hle
      rw [TcpView.room, h.kept.capacity] at hroom
      omega
    have hsent := congrArg List.length h.sound.sent
    have hdelivered := congrArg List.length (h.delivered hclosed)
    rw [List.length_append] at hsent hdelivered
    rcases h.acked hopen with hnil | hacked
    · rw [hnil] at htx
      cases htx
    · rcases h.received hreceives with hall | hrx
      · rw [← hall] at hsent
        omega
      · omega

/-- A read waits only if there is nothing to read. -/
theorem nothing (h : Resting src dst) {len : Nat} {cx : W} {localPort : UInt16}
    (hwaits : (dst.step (.read len) cx localPort).1 = .pending) :
    src.history.accepted = dst.history.delivered := by
  have hstep := dst.step_spec (.read len) cx localPort
  rw [hwaits] at hstep
  generalize tcp.view (dst.step (.read len) cx localPort).2 = v' at hstep
  cases hstep with
  | readPending hended hmay hcan =>
    have hrx : dst.view.rx = [] := by
      by_contra hne
      exact Bool.false_ne_true (hcan.symm.trans (dst.view.canRecv_iff.mpr hne))
    have hreceives : dst.view.state.receives = true := by
      unfold TcpView.mayRecv at hmay
      rw [hrx] at hmay
      generalize dst.view.state = st at hmay
      cases st <;> first | rfl | cases hmay
    have hclosed : dst.view.state ≠ .closed := fun hst => by
      rw [hst] at hended
      cases hended
    have hdelivered := h.delivered hclosed
    rw [hrx, List.append_nil] at hdelivered
    rw [hdelivered]
    refine ((h.received hreceives).resolve_right fun hfull => ?_).symm
    rw [hrx] at hfull
    cases hfull

end Resting

section Between

variable {src dst : Conn tcp Unit} {p : Pipe UInt8 (65535 + 65535)}

theorem Ends.Between.room_of_full (h : Ends.Between src dst p)
    (hfull : src.history.accepted.length = dst.history.delivered.length + (65535 + 65535)) :
    p.room = 0 := by
  have hlength := p.length_held
  rw [h.written, h.read] at hlength
  rw [Pipe.room]
  omega

theorem Ends.Between.held_of_read (h : Ends.Between src dst p)
    (hall : src.history.accepted = dst.history.delivered) : p.held = [] := by
  have hlength := p.length_held
  rw [h.written, h.read, hall] at hlength
  exact List.length_eq_zero_iff.mp (by omega)

end Between

/-! ## Nothing more to do -/

namespace Host

/-- The program does not go on: it is in a call that waits, or it has stopped or panicked. -/
structure Halted (P : Program σ) (s : Host tcp σ) : Prop where
  goto : s.next P .goto = none
  call : s.next P .call = none
  waits : ∀ fut cx localPort, s.conn.calls () = some fut →
    (s.conn.step fut cx localPort).1 = .pending

variable {P : Program σ} {s : Host tcp σ}

theorem Halted.of_stop (hop : P.op s.prog = .stop) (hcalls : s.conn.calls () = none) :
    s.Halted P where
  goto := by
    rw [next, hop]
    exact ite_self none
  call := by
    rw [next, hop]
    exact ite_self none
  waits fut cx localPort hfut := by
    rw [hcalls] at hfut
    cases hfut

/-- The call that a program is in when it has come to a write or a read. -/
theorem Tied.fut_of_call (h : s.Tied P) (hruns : s.Runs) {fut fut' : Future}
    (hfut : s.conn.calls () = some fut) (hcall : Host.call (P.op s.prog) = some fut') :
    fut = fut' := by
  have hfits := h.fits fut hfut
  cases fut with
  | write =>
    obtain ⟨wrote, hop⟩ := hfits
    rw [hop] at hcall
    exact Option.some.inj hcall
  | read =>
    obtain ⟨got, wouldBlock, hop⟩ := hfits
    rw [hop] at hcall
    exact Option.some.inj hcall
  | close | closeWait =>
    rw [h.closing hfits] at hcall
    cases hcall
  | _ => cases hruns.2.symm.trans hfits

/-- A program that runs and does not go on is in the call that it has come to. -/
theorem Halted.in_call (h : s.Halted P) (hruns : s.Runs) (htied : s.Tied P) {fut : Future}
    (hcall : Host.call (P.op s.prog) = some fut) : s.conn.calls () = some fut := by
  have huses : fut.uses = true := by
    cases hop : P.op s.prog <;> rw [hop] at hcall <;> cases hcall <;> rfl
  have hnone := h.call
  rw [next, if_pos hruns, hcall, Option.bind_some, Option.map_eq_none_iff, Conn.next] at hnone
  cases hcalls : s.conn.calls () with
  | none =>
    rw [if_pos ⟨hruns.2, huses, by rw [hcalls]; rfl⟩] at hnone
    cases hnone
  | some fut' => rw [htied.fut_of_call hruns hcalls hcall]

variable [tcp.Documented]

/-- A program that runs and does not go on could not go on over pipes that hold as much. -/
theorem Halted.blocked (h : s.Halted P) (hruns : s.Runs) (htied : s.Tied P) {other : Conn tcp Unit}
    (hrest : Resting s.conn other) [Nonempty W]
    {out inp : Pipe UInt8 (65535 + 65535)} (hout : Ends.Between s.conn other out)
    (hinp : Ends.Between other s.conn inp) : (P.op s.prog).Blocked out inp := by
  obtain ⟨cx⟩ := ‹Nonempty W›
  cases hop : P.op s.prog with
  | write rest wrote =>
    have hcall := h.in_call hruns htied (by rw [hop]; rfl)
    have hcloses := htied.closes_nil (by rw [hop]; exact fun h => by cases h)
    exact .inr (hout.room_of_full (hrest.full hcloses (h.waits _ cx 0 hcall)))
  | read room got wouldBlock =>
    have hcall := h.in_call hruns htied (by rw [hop]; rfl)
    have hall := hrest.symm.nothing (h.waits _ cx 0 hcall)
    exact ⟨(Program.read_nil hop).1, .inr (hinp.held_of_read hall)⟩
  | goto prog =>
    have hgo := h.goto
    simp only [next, if_pos hruns, hop] at hgo
    cases hgo
  | stop => trivial

end Host

namespace Hosted

variable {P : Program σ} {Q : Program τ}

/-- Neither program can go on, and TCP has nothing to deliver. -/
structure Halted (P : Program σ) (Q : Program τ) (s : Hosted tcp σ τ) : Prop where
  left : s.left.Halted P
  right : s.right.Halted Q
  forth : Quiet s.left.conn s.right.conn
  back : Quiet s.right.conn s.left.conn

theorem Reachable.up [tcp.Documented] {s : Hosted tcp σ τ}
    (h : (machine tcp P Q).ReachableBy ok s) : s.left.conn.IsUp ∧ s.right.conn.IsUp := by
  refine Machine.ReachableBy.invariant_under (J := Inv P Q) (I := fun s : Hosted tcp σ τ =>
    s.left.conn.IsUp ∧ s.right.conn.IsUp) (fun _ => Reachable.inv) ?_ ?_ h
  · rintro s ⟨self, self', rfl⟩
    exact ⟨Conn.up_new self, Conn.up_new self'⟩
  · intro s a s' hinv hup _ hnext
    cases a with
    | left l =>
      obtain ⟨left, hleft, rfl⟩ := Option.map_eq_some_iff.mp hnext
      rcases (Host.next_cases hleft).conn with hsame | ⟨cl, hcl, -⟩
      · exact ⟨(show left.conn.IsUp by rw [hsame]; exact hup.1), hup.2⟩
      · exact ⟨Conn.up_next hup.1 (hinv.ends.conn false) hcl, hup.2⟩
    | right l =>
      obtain ⟨right, hright, rfl⟩ := Option.map_eq_some_iff.mp hnext
      rcases (Host.next_cases hright).conn with hsame | ⟨cl, hcl, -⟩
      · exact ⟨hup.1, (show right.conn.IsUp by rw [hsame]; exact hup.2)⟩
      · exact ⟨hup.1, Conn.up_next hup.2 (hinv.ends.conn true) hcl⟩

/-- Two programs with a connection, and nothing to deliver. -/
theorem Inv.resting {s : Hosted tcp σ τ} (h : s.Inv P Q)
    (hup : s.left.conn.IsUp ∧ s.right.conn.IsUp) (hhanded : s.left.conn.stage = .handed)
    (hhanded' : s.right.conn.stage = .handed) (hreset : s.left.conn.history.reset = false)
    (hreset' : s.right.conn.history.reset = false) (hforth : Quiet s.left.conn s.right.conn)
    (hback : Quiet s.right.conn s.left.conn) : Resting s.left.conn s.right.conn where
  sound := (h.ends.conn false).sound
  sound' := (h.ends.conn true).sound
  kept := h.ends.kept false
  kept' := h.ends.kept true
  up := hup.1
  up' := hup.2
  joined := h.ends.joined false
  joined' := h.ends.joined true
  handed := hhanded
  handed' := hhanded'
  reset := hreset
  reset' := hreset'
  quiet := hforth
  quiet' := hback

/-- **A halt on sockets is a halt on the stream**, unless a program has panicked or a connection
was reset. -/
theorem stuck_of_halted [tcp.Documented] [Nonempty W] {s : Hosted tcp σ τ}
    (h : (machine tcp P Q).ReachableBy ok s) (hruns : s.left.Runs) (hruns' : s.right.Runs)
    (hhalted : s.Halted P Q) (hreset : s.left.conn.history.reset = false)
    (hreset' : s.right.conn.history.reset = false)
    {t : State σ τ UInt8 (65535 + 65535) (65535 + 65535)} (hshows : s.Shows t) :
    Stuck P.op Q.op t := by
  have hinv := Reachable.inv h
  have hrest := hinv.resting (Reachable.up h) hruns.2 hruns'.2 hreset
    hreset' hhalted.forth hhalted.back
  refine stuck_of_blocked ?_ ?_
  · rw [hshows.left]
    exact hhalted.left.blocked hruns hinv.left hrest hshows.forth hshows.back
  · rw [hshows.right]
    exact hhalted.right.blocked hruns' hinv.right hrest.symm hshows.back hshows.forth

/-! ### A connection -/

/-- The server on the right listens and the client on the left connects; `accept` returns at
the SYN. -/
def accepting : List (Label Unit) :=
  [.right (.setup (.accept 80)), .right (.poll () 0),
    .left (.setup (.connect remoteHostText 80)), .left (.poll () 49152),
    .right (.segment (fromRemote .syn false 0 [])), .right (.poll () 0), .right (.poll () 0)]

/-- The server accepts, and the handshake is completed. -/
def connecting : List (Label Unit) :=
  accepting ++ [.left (.segment (fromRemote .syn true 0 [])), .left (.poll () 0),
    .right (.segment (fromRemote .none true 0 []))]

/-- Two programs before their sockets are there. -/
def unconnected (P : Program σ) (Q : Program τ) : Hosted (reference Unit) σ τ where
  left := .new P 0
  right := .new Q 0

/-- A run that TCP allows. -/
def runOnSockets (P : Program σ) (Q : Program τ)
    (labels : List (Label Unit)) : Option (Hosted (reference Unit) σ τ) :=
  (machine (reference Unit) P Q).runBy (fun s a => decide (s.ok a)) (unconnected P Q) labels

theorem reachable_of_run {labels : List (Label Unit)} {s : Hosted (reference Unit) σ τ}
    (h : runOnSockets P Q labels = some s) :
    (machine (reference Unit) P Q).ReachableBy ok s :=
  Machine.ReachableBy.runBy (fun _ _ => of_decide_eq_true) (.init ⟨0, 0, rfl⟩) h

/-- A program that is over, on a connection that is still there. -/
structure Drained (P : Program σ) (s : Host (reference Unit) σ) : Prop where
  runs : s.Runs
  stop : P.op s.prog = .stop
  calls : s.conn.calls () = none
  established : s.conn.view.state = .established
  tx : s.conn.view.tx = []
  reset : s.conn.history.reset = false

/-- If all octets have come, nothing happens any more. -/
theorem Drained.halted {s : Hosted (reference Unit) σ τ} (hleft : Drained P s.left)
    (hright : Drained Q s.right)
    (hforth : s.right.conn.history.received = s.left.conn.history.accepted)
    (hback : s.left.conn.history.received = s.right.conn.history.accepted) : s.Halted P Q where
  left := .of_stop hleft.stop hleft.calls
  right := .of_stop hright.stop hright.calls
  forth := quiet_of_received hright.established hright.tx hforth
  back := quiet_of_received hleft.established hleft.tx hback

/-! ### Sockets for a stream -/

/-- **Two sockets are as good as a stream**: what two programs have done on them they could have
done on pipes that hold as much as the buffers of both sides. Where they come to a halt with
their connections, and neither has panicked, they would come to one there. -/
theorem over_stream [Nonempty W] [tcp.Documented] {s : Hosted tcp σ τ}
    (h : (machine tcp P Q).ReachableBy ok s) : ∃ t,
      (Duplex.machine P.op Q.op P.start Q.start (65535 + 65535) (65535 + 65535)).Reachable t ∧
        s.Shows t ∧ (s.left.Runs → s.right.Runs → s.Halted P Q →
          s.left.conn.history.reset = false → s.right.conn.history.reset = false →
            Stuck P.op Q.op t) := by
  obtain ⟨t, ht, hshows⟩ := Reachable.shows h
  exact ⟨t, ht, hshows, fun hruns hruns' hhalted hreset hreset' =>
    stuck_of_halted h hruns hruns' hhalted hreset hreset' hshows⟩

/-- A program that writes one octet, until it is taken. -/
def writesOne (x : UInt8) : Program Bool where
  op
    | false => .write [x] fun n => decide (0 < n)
    | true => .stop
  start := false
  exact := false
  steady
    | false => rfl
    | true => trivial

/-- A program that reads one octet, until there is one. -/
def readsOne : Program (List UInt8) where
  op
    | [] => .read 1 (fun bytes => bytes) none
    | _ => .stop
  start := []
  exact := false
  steady
    | [] => ⟨rfl, fun _ => rfl⟩
    | _ :: _ => trivial

/-- One octet, which is read and acknowledged. -/
def octetOnSockets : List (Label Unit) :=
  connecting ++ [.left .call, .left (.poll () 0), .right .call,
    .right (.segment (fromRemote .none true 0 [7])), .right (.poll () 0),
    .left (.segment (fromRemote .none true 1 []))]

theorem over_stream_octet : ∃ s, runOnSockets (writesOne 7) readsOne octetOnSockets = some s ∧
    s.right.prog = [7] ∧ ∃ t, (Duplex.machine (writesOne 7).op readsOne.op false []
      (65535 + 65535) (65535 + 65535)).Reachable t ∧
        s.Shows t ∧ Stuck (writesOne 7).op readsOne.op t := by
  obtain ⟨s, hrun, hprog, hleft, hright, hforth, hback⟩ : ∃ s,
      runOnSockets (writesOne 7) readsOne octetOnSockets = some s ∧ s.right.prog = [7] ∧
      Drained (writesOne 7) s.left ∧ Drained readsOne s.right ∧
      s.right.conn.history.received = s.left.conn.history.accepted ∧
      s.left.conn.history.received = s.right.conn.history.accepted :=
    ⟨_, rfl, rfl, ⟨⟨rfl, rfl⟩, rfl, rfl, rfl, rfl, rfl⟩, ⟨⟨rfl, rfl⟩, rfl, rfl, rfl, rfl, rfl⟩,
      rfl, rfl⟩
  obtain ⟨t, ht, hshows, hstuck⟩ := over_stream (reachable_of_run hrun)
  exact ⟨s, hrun, hprog, t, ht, hshows,
    hstuck hleft.runs hright.runs (hleft.halted hright hforth hback) hleft.reset hright.reset⟩

end Hosted

end RustyHermit.Net
