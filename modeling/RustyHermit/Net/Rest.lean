import RustyHermit.Lib.Path
import RustyHermit.Net.Halt

/-!
# Programs on sockets come to rest

What happens for ever on two sockets: a program that has something to do goes on, and a call
in `poll_on` is polled again and again; and TCP goes on to bring segments as long as there is
something to bring.

- `Host.Moves.weight`: what a step changes about a socket is counted, and only so much of it
  can happen.
- `Hosted.Fair.comes_to_rest`: so two programs that have only so much to do over a stream come
  to rest on sockets, at a place where they would be stuck over the stream.
-/

namespace RustyHermit

open RustyHermit.Smoltcp

/-! ## What happens on a socket -/

/-- How far a connection has come. -/
def Smoltcp.TcpState.age : TcpState → Nat
  | .listen => 0
  | .synSent | .synReceived => 1
  | .established => 2
  | .closeWait | .finWait1 => 3
  | .finWait2 | .closing | .lastAck => 4
  | .timeWait => 5
  | .closed => 6

/-- A segment takes a connection further, unless it is a reset. -/
theorem Smoltcp.TcpState.age_process (st : TcpState) (g : Segment) :
    st.process g = st ∨ st.age < (st.process g).age ∨ g.control = .rst := by
  have hstep := st.process_step g
  generalize st.process g = st' at hstep
  cases hstep with
  | same => exact .inl rfl
  | reset hrst | refused hrst => exact .inr (.inr hrst)
  | _ => exact .inr (.inl (by decide))

/-- `close` makes the state older, unless it waits for the last ACK or has ended. -/
theorem Smoltcp.TcpState.age_close {st : TcpState} (hended : Net.ended st = false)
    (hlast : st ≠ .lastAck) : st.age < st.close.age := by
  cases st with
  | lastAck => exact absurd rfl hlast
  | finWait1 | finWait2 | closed | closing | timeWait => cases hended
  | _ => decide

namespace Net

open Duplex

variable {W : Type} {tcp : SmolTcp W} {σ τ : Type}

/-- What has happened on a socket, as a number. -/
def weight (v : TcpView) (k : History) : Nat :=
  k.accepted.length + k.delivered.length + k.received.length + k.acked.length + v.state.age

/-- Nothing has happened on a socket. -/
structure Same (v : TcpView) (k : History) (v' : TcpView) (k' : History) : Prop where
  view : v' = v
  accepted : k'.accepted = k.accepted
  delivered : k'.delivered = k.delivered
  received : k'.received = k.received
  acked : k'.acked = k.acked
  closes : k'.closes = k.closes

namespace Same

variable {v v' v'' : TcpView} {k k' k'' : History}

theorem refl (v : TcpView) (k : History) : Same v k v k :=
  ⟨rfl, rfl, rfl, rfl, rfl, rfl⟩

theorem trans (h : Same v k v' k') (h' : Same v' k' v'' k'') : Same v k v'' k'' where
  view := h'.view.trans h.view
  accepted := h'.accepted.trans h.accepted
  delivered := h'.delivered.trans h.delivered
  received := h'.received.trans h.received
  acked := h'.acked.trans h.acked
  closes := h'.closes.trans h.closes

theorem symm (h : Same v k v' k') : Same v' k' v k where
  view := h.view.symm
  accepted := h.accepted.symm
  delivered := h.delivered.symm
  received := h.received.symm
  acked := h.acked.symm
  closes := h.closes.symm

end Same

/-- Where there is nothing to bring, there is nothing as long as nothing happens to the sockets. -/
theorem Quiet.congr {src src' dst dst' : Conn tcp Unit} (h : Quiet src dst)
    (hsrc : Same src.view src.history src'.view src'.history)
    (hdst : Same dst.view dst.history dst'.view dst'.history) : Quiet src' dst' := by
  intro g hcontrol hack hpromised
  obtain ⟨hoctets, hwindow, hacks, hfin⟩ := hpromised
  rw [hdst.received, hdst.view, hsrc.accepted] at hoctets
  rw [hdst.view] at hwindow hfin
  rw [hdst.acked, hdst.view, hsrc.received] at hacks
  rw [hsrc.closes] at hfin
  rw [hdst.view]
  exact h g hcontrol hack ⟨hoctets, hwindow, hacks, hfin⟩

/-- A segment brings something, or nothing happens. -/
theorem weight_segment {v : TcpView} {k : History} (g : Segment)
    (hreset : (k.segment v g).reset = false) :
    weight v k < weight (v.process g) (k.segment v g) ∨
      Same v k (v.process g) (k.segment v g) := by
  have hweight : weight (v.process g) (k.segment v g) = k.accepted.length + k.delivered.length +
      (k.received.length + (v.taken g).length) + (k.acked.length + (v.acked g).length) +
      (v.state.process g).age := by
    simp only [weight, History.segment, List.length_append]
    rfl
  have hstate : v.state.process g = v.state ∨ v.state.age < (v.state.process g).age := by
    rcases v.state.age_process g with hsame | hless | hrst
    · exact .inl hsame
    · exact .inr hless
    · refine .inl (by_contra fun hne => ?_)
      have htakes : History.takes .rst v g = true := by
        simp [History.takes, hrst, hne]
      rw [History.segment, htakes, Bool.or_true] at hreset
      cases hreset
  rcases hstate with hsame | hless
  · by_cases hnone : v.taken g = [] ∧ v.acked g = []
    · refine .inr ⟨?_, rfl, rfl, ?_, ?_, rfl⟩
      · rw [TcpView.process, hsame, nextRemote_same hsame, hnone.1, hnone.2, List.append_nil]
        rfl
      · rw [History.segment, hnone.1, List.append_nil]
      · rw [History.segment, hnone.2, List.append_nil]
    · refine .inl ?_
      rw [hweight, hsame, weight]
      rcases not_and_or.mp hnone with htaken | hacked
      · have hpos := List.length_pos_iff.mpr htaken
        omega
      · have hpos := List.length_pos_iff.mpr hacked
        omega
  · refine .inl ?_
    rw [hweight, weight]
    omega

/-- The end of `TimeWait` happens once. -/
theorem weight_expire (v : TcpView) (k : History) :
    weight v k < weight v.expire (k.expire v) ∨ Same v k v.expire (k.expire v) := by
  by_cases hst : v.state = .timeWait
  · refine .inl ?_
    have hv : v.expire = v.opened .closed .unspecified := by
      simp only [TcpView.expire, hst]
    rw [hv, weight, weight, hst]
    exact Nat.add_lt_add_left (Nat.lt_succ_self 5) _
  · obtain ⟨hv, hk⟩ := expire_same k hst
    rw [hv, hk]
    exact .inr (.refl v k)

/-- A section of a call on the handle. -/
theorem weight_step {self : Handle} {v v' : TcpView} {k : History} {fut : Future}
    {progress : Progress} (hsound : Sound v k) (husing : Using k fut)
    (honce : fut = .close → k.closes = []) (hstep : Future.Step self v fut progress v') :
    weight v k < weight v' (k.record v fut progress) ∨
      Same v k v' (k.record v fut progress) := by
  cases hstep with
  | connectError | connectStart | connectRefused | connectPending | connected | acceptError
  | acceptStart | acceptActive | acceptClosed | acceptPending | accepted =>
    rcases husing with huses | ⟨heq, -⟩
    · cases huses
    · cases heq
  | @readBytes len hended hcan =>
    by_cases hnil : v.rx.take len = []
    · have hlen : len = 0 :=
        (List.take_eq_nil_iff.mp hnil).resolve_right (v.canRecv_iff.mp hcan)
      subst hlen
      exact .inr ⟨rfl, rfl, List.append_nil _, rfl, rfl, rfl⟩
    · refine .inl ?_
      have hpos := List.length_pos_iff.mpr hnil
      simp only [weight, History.record, List.length_append]
      omega
  | readEnd => exact .inr ⟨rfl, rfl, List.append_nil _, rfl, rfl, rfl⟩
  | @writeBytes buffer hended hmay hcan =>
    have hroom : 0 < v.room := of_decide_eq_true (Bool.and_eq_true_iff.mp hcan).2
    by_cases hnil : buffer = []
    · subst hnil
      refine .inr ⟨?_, List.append_nil _, rfl, rfl, rfl, rfl⟩
      rw [List.take_nil, List.append_nil]
    · refine .inl ?_
      have hpos := List.length_pos_iff.mpr hnil
      simp only [weight, History.record, List.length_append, List.length_take]
      omega
  | writeEnd => exact .inr ⟨rfl, List.append_nil _, rfl, rfl, rfl, rfl⟩
  | close hended htx =>
    refine .inl (Nat.add_lt_add_left (TcpState.age_close hended fun hlast => ?_) _)
    exact hsound.shut (by rw [hlast]; rfl) (by rw [hlast]; exact fun h => by cases h) (honce rfl)
  | _ => exact .inr ⟨rfl, rfl, rfl, rfl, rfl, rfl⟩

/-! ## One program -/

namespace Host

variable {P : Program σ} {Q : Program τ}

/-- All runs of a program on a socket. -/
def machine (tcp : SmolTcp W) (P : Program σ) : Machine (Host tcp σ) (Label W) where
  init s := ∃ self, s = new P self
  next := next P

/-- The step is one of the program, not of TCP. -/
def Label.own : Label W → Bool
  | .segment _ | .expire => false
  | _ => true

/-- A handle stays one. -/
theorem Moves.handed {s s' : Host tcp σ} {l : Label W} (h : s.Moves P l s')
    (hst : s.conn.stage = .handed) : s'.conn.stage = .handed := by
  cases h with
  | setup hnext =>
    obtain ⟨⟨hnew, -⟩, -⟩ := Option.ite_none_right_eq_some.mp hnext
    cases hst.symm.trans hnew
  | goto => exact hst
  | call _ _ hnext | close _ _ _ hnext =>
    obtain ⟨-, hconn⟩ := Option.ite_none_right_eq_some.mp hnext
    cases hconn
    exact hst
  | poll =>
    show s.conn.stage.after _ = .handed
    rw [hst]
    rfl
  | segment g hnext | expire hnext =>
    cases hnext
    exact hst

/-- A program that has its stream is there, unless a call has failed on it. -/
theorem runs_of_lost {s : Host tcp σ} (hst : s.conn.stage = .handed)
    (hreset : s.conn.history.reset = false) (hlost : s.failed = true → s.Lost) : s.Runs := by
  refine ⟨Bool.eq_false_iff.mpr fun hfailed => ?_, hst⟩
  rcases hlost hfailed with hdropped | hreset'
  · cases hst.symm.trans hdropped
  · cases hreset.symm.trans hreset'

/-- **A step changes something about the socket that is counted, or nothing.** -/
theorem Moves.weight [tcp.Documented] {s s' : Host tcp σ} {l : Label W} (h : s.Moves P l s')
    (hinv : s.conn.Inv) (htied : s.Tied P) (hst : s.conn.stage = .handed)
    (hreset : s'.conn.history.reset = false) :
    Net.weight s.conn.view s.conn.history < Net.weight s'.conn.view s'.conn.history ∨
      Same s.conn.view s.conn.history s'.conn.view s'.conn.history := by
  cases h with
  | setup hnext =>
    obtain ⟨⟨hnew, -⟩, -⟩ := Option.ite_none_right_eq_some.mp hnext
    cases hst.symm.trans hnew
  | goto => exact .inr (.refl _ _)
  | call _ _ hnext | close _ _ _ hnext =>
    obtain ⟨-, hconn⟩ := Option.ite_none_right_eq_some.mp hnext
    cases hconn
    exact .inr (.refl _ _)
  | @poll fut cx localPort hfut =>
    rcases hinv.caller hfut with ⟨hopening, -, -⟩ | ⟨-, husing, -⟩
    · cases hst.symm.trans hopening
    · refine weight_step hinv.sound husing (fun hclose => ?_) (s.conn.step_spec fut cx localPort)
      exact htied.once (hclose ▸ hfut)
  | segment g hnext =>
    cases hnext
    have hview : tcp.view (tcp.process s.conn.socket g) = s.conn.view.process g :=
      SmolTcp.Documented.process_view ..
    simp only [Conn.view, hview]
    exact weight_segment g hreset
  | expire hnext =>
    cases hnext
    have hview : tcp.view (tcp.expire s.conn.socket) = s.conn.view.expire :=
      SmolTcp.Documented.expire_view ..
    simp only [Conn.view, hview]
    exact weight_expire _ _

/-- What a program that has its stream can do. -/
theorem Moves.own_cases {s s' : Host tcp σ} {l : Label W} (h : s.Moves P l s')
    (hown : l.own = true) (hruns : s.Runs) :
    (∃ prog, P.op s.prog = .goto prog ∧ s'.prog = prog) ∨ P.op s.prog = .stop ∨
      (s.conn.calls () = none ∧ s'.conn.calls () ≠ none) ∨
      (s.conn.calls () ≠ none ∧ ∃ cx localPort, l = .poll cx localPort) := by
  cases h with
  | setup hnext =>
    obtain ⟨⟨hnew, -⟩, -⟩ := Option.ite_none_right_eq_some.mp hnext
    cases hruns.2.symm.trans hnew
  | goto _ hop => exact .inl ⟨_, hop, rfl⟩
  | call _ _ hnext =>
    obtain ⟨⟨-, -, hnone⟩, hconn⟩ := Option.ite_none_right_eq_some.mp hnext
    cases hconn
    exact .inr (.inr (.inl ⟨Option.isNone_iff_eq_none.mp hnone, fun h => by cases h⟩))
  | close _ _ hop => exact .inr (.inl hop)
  | poll cx localPort hfut =>
    refine .inr (.inr (.inr ⟨?_, cx, localPort, rfl⟩))
    rw [hfut]
    exact fun h => by cases h
  | segment | expire => cases hown

/-- Nobody else touches the program and its call. -/
theorem Moves.of_not_own {s s' : Host tcp σ} {l : Label W} (h : s.Moves P l s')
    (hown : l.own = false) : s'.prog = s.prog ∧ s'.conn.calls () = s.conn.calls () := by
  cases h with
  | segment g hnext | expire hnext =>
    cases hnext
    exact ⟨rfl, rfl⟩
  | _ => cases hown

/-- A reset is for good. -/
theorem Moves.reset {s s' : Host tcp σ} {l : Label W} (h : s.Moves P l s')
    (hreset : s.conn.history.reset = true) : s'.conn.history.reset = true := by
  cases h with
  | goto => exact hreset
  | setup hnext =>
    obtain ⟨-, hconn⟩ := Option.ite_none_right_eq_some.mp hnext
    cases hconn
    exact hreset
  | call _ _ hnext | close _ _ _ hnext =>
    obtain ⟨-, hconn⟩ := Option.ite_none_right_eq_some.mp hnext
    cases hconn
    exact hreset
  | @poll fut _ _ hfut => exact (record_reset s.conn.history _ fut _).trans hreset
  | segment g hnext =>
    cases hnext
    show (s.conn.history.reset || _) = true
    rw [hreset, Bool.true_or]
  | expire hnext =>
    cases hnext
    exact hreset

/-- A write that is polled and writes nothing waits for room, as over a pipe. It is not made when
the other side has closed. -/
theorem full_of_write [tcp.Documented] {src dst : Conn tcp Unit} (hrest : Resting src dst)
    (hinv : src.Inv) (hcloses : src.history.closes = []) (hopen : dst.history.closes = [])
    {buffer : List UInt8} {cx : W} {localPort : UInt16}
    (hwrote : (Future.write buffer).wrote (src.step (.write buffer) cx localPort).1 = [])
    {out : Pipe UInt8 (65535 + 65535)} (hout : Ends.Between src dst out) :
    buffer = [] ∨ out.room = 0 := by
  have hstep := src.step_spec (.write buffer) cx localPort
  generalize hprogress : (src.step (.write buffer) cx localPort).1 = progress at hstep hwrote
  generalize tcp.view (src.step (.write buffer) cx localPort).2 = v' at hstep
  cases hstep with
  | writeError e hended =>
    have hreset := (hinv.ended_cases hrest.handed hended).resolve_right fun hne => hne hcloses
    cases hrest.reset.symm.trans hreset
  | writeEnd hended hmay => exact absurd hopen (hrest.symm.closes_of_end hcloses hended hmay)
  | writeBytes hended hmay hcan =>
    have hroom : 0 < src.view.room := of_decide_eq_true (Bool.and_eq_true_iff.mp hcan).2
    have hlength := congrArg List.length hwrote
    rw [Future.wrote, List.length_take, List.length_nil] at hlength
    exact .inl (List.length_eq_zero_iff.mp (by omega))
  | writePending => exact .inr (hout.room_of_full (hrest.full hcloses hprogress))

/-- A read that reads nothing waits for something to read. -/
theorem nothing_of_read [tcp.Documented] {src dst : Conn tcp Unit} (hrest : Resting src dst)
    (hinv : dst.Inv) (hcloses : dst.history.closes = []) {len : Nat} {cx : W}
    {localPort : UInt16} (htook : (Future.read len).took (dst.step (.read len) cx localPort).1 = [])
    {inp : Pipe UInt8 (65535 + 65535)} (hinp : Ends.Between src dst inp) :
    len = 0 ∨ inp.held = [] := by
  have hstep := dst.step_spec (.read len) cx localPort
  generalize hprogress : (dst.step (.read len) cx localPort).1 = progress at hstep htook
  generalize tcp.view (dst.step (.read len) cx localPort).2 = v' at hstep
  cases hstep with
  | readError e hended =>
    have hreset := (hinv.ended_cases hrest.handed' hended).resolve_right fun hne => hne hcloses
    cases hrest.reset'.symm.trans hreset
  | readEnd hended hmay => exact .inr (hinp.held_of_read (hrest.all_of_end hcloses hended hmay))
  | readBytes hended hcan =>
    exact .inl ((List.take_eq_nil_iff.mp htook).resolve_right (dst.view.canRecv_iff.mp hcan))
  | readPending => exact .inr (hinp.held_of_read (hrest.nothing hprogress))

/-- **A program whose call is polled and moves nothing** would not go on over pipes either. -/
theorem Moves.blocked [tcp.Documented] {s s' : Host tcp σ} {other : Conn tcp Unit} {cx : W}
    {localPort : UInt16} (h : s.Moves P (.poll cx localPort) s') (htied : s.Tied P)
    (hinv : s.conn.Inv) (hruns : s.Runs) (hrest : Resting s.conn other)
    (hsame : Same s.conn.view s.conn.history s'.conn.view s'.conn.history)
    (hwrites : other.history.closes ≠ [] → (P.op s.prog).writes = false)
    {out inp : Pipe UInt8 (65535 + 65535)} (hout : Ends.Between s.conn other out)
    (hinp : Ends.Between other s.conn inp) : (P.op s.prog).Blocked out inp := by
  cases h with
  | @poll fut _ _ hfut =>
    have hwrote : fut.wrote (s.conn.step fut cx localPort).1 = [] :=
      List.append_right_eq_self.mp
        ((s.conn.history.record_accepted _ _ _).symm.trans hsame.accepted)
    have htook : fut.took (s.conn.step fut cx localPort).1 = [] :=
      List.append_right_eq_self.mp
        ((s.conn.history.record_delivered _ _ _).symm.trans hsame.delivered)
    cases hop : P.op s.prog with
    | stop => trivial
    | goto prog => exact absurd hfut (htied.calls_of_goto hruns hop fut)
    | write rest wrote =>
      have hcloses := htied.closes_nil (by rw [hop]; exact fun h => by cases h)
      obtain rfl : fut = .write rest := htied.fut_of_call hruns hfut (by rw [hop]; rfl)
      refine full_of_write hrest hinv hcloses (by_contra fun hne => ?_) hwrote hout
      have hnot := hwrites hne
      rw [hop] at hnot
      cases hnot
    | read room got wouldBlock =>
      have hcloses := htied.closes_nil (by rw [hop]; exact fun h => by cases h)
      obtain rfl : fut = .read room := htied.fut_of_call hruns hfut (by rw [hop]; rfl)
      exact ⟨(Program.read_nil hop).1, nothing_of_read hrest.symm hinv hcloses htook hinp⟩

/-- A program that has failed stays so. -/
theorem Moves.failed {s s' : Host tcp σ} {l : Label W} (h : s.Moves P l s')
    (hfailed : s.failed = true) : s'.failed = true := by
  cases h with
  | @poll fut cx localPort hfut =>
    show (s.resume P _).failed = true
    unfold resume
    split
    · split <;> exact hfailed
    · split
      · split
        · rfl
        · exact hfailed
      · exact hfailed
    · rfl
    · exact hfailed
  | _ => exact hfailed

section Paths

variable (p : (machine tcp P).Path)

/-- **Fairness of the scheduler**: a program that has something to do goes on. One that is in a
call goes on with `poll_on`, which polls in a loop. -/
def GoesOn : Prop :=
  LeadsTo (fun n => (p.state n).Runs ∧ P.op (p.state n).prog ≠ .stop)
    fun n => ∃ l, p.label n = some l ∧ l.own = true

/-- A section of its call is executed. -/
def Polls (n : Nat) : Prop :=
  ∃ cx localPort, p.label n = some (.poll cx localPort)

variable {p}

theorem moves_of_label {n : Nat} {l : Label W} (h : p.label n = some l) :
    (p.state n).Moves P l (p.state (n + 1)) :=
  next_cases (p.next_of_label h)

theorem handed_of_le {n m : Nat} (hnm : n ≤ m) (h : (p.state n).conn.stage = .handed) :
    (p.state m).conn.stage = .handed :=
  p.keeps (I := fun s => s.conn.stage = .handed)
    (fun _ _ _ hs hnext => (next_cases hnext).handed hs) hnm h

theorem reset_of_le {n m : Nat} (hnm : n ≤ m) (h : (p.state m).conn.history.reset = false) :
    (p.state n).conn.history.reset = false :=
  Bool.eq_false_iff.mpr fun hreset => Bool.false_ne_true (h.symm.trans
    (p.keeps (I := fun s => s.conn.history.reset = true)
      (fun _ _ _ hs hnext => (next_cases hnext).reset hs) hnm hreset))

theorem failed_of_le {n m : Nat} (hnm : n ≤ m) (h : (p.state m).failed = false) :
    (p.state n).failed = false :=
  Bool.eq_false_iff.mpr fun hfailed => Bool.false_ne_true (h.symm.trans
    (p.keeps (I := fun s => s.failed = true)
      (fun _ _ _ hs hnext => (next_cases hnext).failed hs) hnm hfailed))

/-- A program that stops for good has gone on before. -/
theorem goesOn_of_stop {m : Nat} (h : ∀ n, m ≤ n → P.op (p.state n).prog = .stop) :
    GoesOn p := by
  have hleads : LeadsTo (fun n => P.op (p.state n).prog ≠ .stop)
      fun n => ∃ l, p.label n = some l ∧ l.own = true := by
    refine .of_ends (fun n hop => ?_) fun n hn hop => hop (h n hn)
    cases hlabel : p.label n with
    | none =>
      rw [p.state_of_label hlabel]
      exact .inr hop
    | some l =>
      cases hown : l.own with
      | true => exact .inl ⟨l, rfl, hown⟩
      | false => exact .inr (((moves_of_label hlabel).of_not_own hown).1.symm ▸ hop)
  exact (LeadsTo.of_imp fun n hn => hn.2).trans hleads

/-- A program that stays where it is, at a write or a read, is in its call and is polled. -/
theorem GoesOn.polls (h : GoesOn p) {N : Nat} (hruns : ∀ n, N ≤ n → (p.state n).Runs)
    {fut : Future} (hcall : ∀ n, N ≤ n → Host.call (P.op (p.state n).prog) = some fut) :
    ∃ n, N ≤ n ∧ Polls p n := by
  have hop : ∀ n, N ≤ n → (∀ prog, P.op (p.state n).prog ≠ .goto prog) ∧
      P.op (p.state n).prog ≠ .stop := by
    intro n hn
    have hsome := hcall n hn
    refine ⟨fun prog hgoto => ?_, fun hstop => ?_⟩
    · rw [hgoto] at hsome
      cases hsome
    · rw [hstop] at hsome
      cases hsome
  have howns : ∀ n, N ≤ n → (∃ l, p.label n = some l ∧ l.own = true) → Polls p n ∨
      ((p.state n).conn.calls () = none ∧ (p.state (n + 1)).conn.calls () ≠ none) := by
    rintro n hn ⟨l, hlabel, hown⟩
    rcases (moves_of_label hlabel).own_cases hown (hruns n hn) with
      ⟨prog, hgoto, -⟩ | hstop | hstarts | ⟨-, cx, localPort, rfl⟩
    · exact absurd hgoto ((hop n hn).1 prog)
    · exact absurd hstop (hop n hn).2
    · exact .inr hstarts
    · exact .inl ⟨cx, localPort, hlabel⟩
  -- a call that is in progress stays so until it is polled
  have hpolled : LeadsTo (fun n => N ≤ n ∧ (p.state n).conn.calls () ≠ none) (Polls p) := by
    refine .of_until (H := fun n => ∃ l, p.label n = some l ∧ l.own = true) ?_ ?_ ?_
    · rintro n ⟨hn, hcalls⟩
      cases hlabel : p.label n with
      | none =>
        rw [p.state_of_label hlabel]
        exact .inr ⟨Nat.le_succ_of_le hn, hcalls⟩
      | some l =>
        cases hown : l.own with
        | true =>
          exact .inl ((howns n hn ⟨l, hlabel, hown⟩).resolve_right fun hstarts => hcalls hstarts.1)
        | false =>
          refine .inr ⟨Nat.le_succ_of_le hn, ?_⟩
          rw [((moves_of_label hlabel).of_not_own hown).2]
          exact hcalls
    · exact (LeadsTo.of_imp fun n hn => ⟨hruns n hn.1, (hop n hn.1).2⟩).trans h
    · rintro n ⟨hn, hcalls⟩ hown
      exact (howns n hn hown).resolve_right fun hstarts => hcalls hstarts.1
  obtain ⟨n, hn, hown⟩ := h N ⟨hruns N (Nat.le_refl N), (hop N (Nat.le_refl N)).2⟩
  rcases howns n hn hown with hpoll | ⟨-, hcalls⟩
  · exact ⟨n, hn, hpoll⟩
  · obtain ⟨m, hm, hpoll⟩ := hpolled (n + 1) ⟨Nat.le_succ_of_le hn, hcalls⟩
    exact ⟨m, Nat.le_trans (Nat.le_succ_of_le hn) hm, hpoll⟩

/-- A program that stays where it is is blocked there, whatever the other side does. -/
theorem GoesOn.blocked [tcp.Documented] (h : GoesOn p) {N : Nat} {other : Nat → Conn tcp Unit}
    {prog : σ} (hprog : ∀ n, N ≤ n → (p.state n).prog = prog)
    (hmoves : ∀ prog', P.op prog = .goto prog' → prog' ≠ prog)
    (hruns : ∀ n, N ≤ n → (p.state n).Runs)
    (htied : ∀ n, N ≤ n → (p.state n).Tied P) (hinv : ∀ n, N ≤ n → (p.state n).conn.Inv)
    (hrest : ∀ n, N ≤ n → Resting (p.state n).conn (other n))
    (hsame : ∀ n, N ≤ n → Same (p.state n).conn.view (p.state n).conn.history
      (p.state (n + 1)).conn.view (p.state (n + 1)).conn.history)
    (hwrites : ∀ n, N ≤ n → (other n).history.closes ≠ [] → (P.op prog).writes = false)
    {out inp : Pipe UInt8 (65535 + 65535)}
    (hout : ∀ n, N ≤ n → Ends.Between (p.state n).conn (other n) out)
    (hinp : ∀ n, N ≤ n → Ends.Between (other n) (p.state n).conn inp) :
    (P.op prog).Blocked out inp := by
  have hpolled : ∀ fut, Host.call (P.op prog) = some fut → (P.op prog).Blocked out inp := by
    intro fut hcall
    obtain ⟨n, hn, cx, localPort, hlabel⟩ :=
      h.polls hruns (fun n hn => (hprog n hn).symm ▸ hcall)
    have hblocked := (moves_of_label hlabel).blocked (htied n hn) (hinv n hn) (hruns n hn)
      (hrest n hn) (hsame n hn) (fun hne => (hprog n hn).symm ▸ hwrites n hn hne) (hout n hn)
      (hinp n hn)
    rwa [hprog n hn] at hblocked
  cases hop : P.op prog with
  | write rest wrote => exact hop ▸ hpolled (.write rest) (by rw [hop]; rfl)
  | read room got wouldBlock => exact hop ▸ hpolled (.read room) (by rw [hop]; rfl)
  | stop => trivial
  | goto prog' =>
    have hstays := hprog N (Nat.le_refl N)
    obtain ⟨n, hn, l, hlabel, hown⟩ :=
      h N ⟨hruns N (Nat.le_refl N), by rw [hstays, hop]; exact fun h => by cases h⟩
    have hmove := moves_of_label hlabel
    have hgoto : P.op (p.state n).prog = .goto prog' := (hprog n hn).symm ▸ hop
    -- so no call is in progress, and what it does is to go on
    have hnone : ∀ n, N ≤ n → (p.state n).conn.calls () = none := by
      intro n hn
      have hgoto : P.op (p.state n).prog = .goto prog' := (hprog n hn).symm ▸ hop
      exact Option.eq_none_iff_forall_ne_some.mpr ((htied n hn).calls_of_goto (hruns n hn) hgoto)
    rcases hmove.own_cases hown (hruns n hn) with
      ⟨prog'', hgoto', hnext⟩ | hstop | ⟨-, hcalls⟩ | ⟨hcalls, -⟩
    · cases hgoto.symm.trans hgoto'
      exact absurd (hnext.symm.trans (hprog (n + 1) (Nat.le_succ_of_le hn))) (hmoves prog' hop)
    · cases hgoto.symm.trans hstop
    · exact absurd (hnone (n + 1) (Nat.le_succ_of_le hn)) hcalls
    · exact absurd (hnone n hn) hcalls

/-- **Fairness of TCP**: on a connection that is there, as long as there are octets or an
acknowledgement to bring, something is brought. -/
def Brings (p : (machine tcp P).Path) (q : (machine tcp Q).Path) : Prop :=
  LeadsTo (fun n => (p.state n).Runs ∧ (q.state n).Runs ∧
      ¬Quiet (p.state n).conn (q.state n).conn) fun n =>
    Quiet (p.state n).conn (q.state n).conn ∨ ∃ g, q.label n = some (.segment g) ∧
      (q.state n).conn.view.process g ≠ (q.state n).conn.view

/-- Where nothing happens any more, there is nothing to bring. -/
theorem Brings.quiet [tcp.Documented] {q : (machine tcp Q).Path} (h : Brings p q) {N : Nat}
    (hruns : (p.state N).Runs) (hruns' : (q.state N).Runs)
    (hp : ∀ n, N ≤ n → Same (p.state N).conn.view (p.state N).conn.history
      (p.state n).conn.view (p.state n).conn.history)
    (hq : ∀ n, N ≤ n → Same (q.state N).conn.view (q.state N).conn.history
      (q.state n).conn.view (q.state n).conn.history) :
    Quiet (p.state N).conn (q.state N).conn := by
  by_contra hnot
  obtain ⟨n, hn, hquiet | ⟨g, hlabel, hne⟩⟩ := h N ⟨hruns, hruns', hnot⟩
  · exact hnot (hquiet.congr (hp n hn).symm (hq n hn).symm)
  · have hview : (q.state (n + 1)).conn.view = (q.state n).conn.view.process g := by
      have hstep := q.step n
      rw [hlabel] at hstep
      rw [← Option.some.inj hstep]
      exact SmolTcp.Documented.process_view ..
    refine hne (hview.symm.trans ?_)
    rw [(hq (n + 1) (Nat.le_succ_of_le hn)).view, (hq n hn).view]

end Paths

end Host

/-! ## Two programs -/

namespace Hosted

variable {P : Program σ} {Q : Program τ}

/-- What a step does on the left. -/
def Label.left? : Label W → Option (Host.Label W)
  | .left l => some l
  | .right _ => none

def Label.right? : Label W → Option (Host.Label W)
  | .left _ => none
  | .right l => some l

/-- What has happened, as a number. -/
def weight (s : Hosted tcp σ τ) : Nat :=
  Net.weight s.left.conn.view s.left.conn.history +
    Net.weight s.right.conn.view s.right.conn.history

/-- Nothing has happened to the two sockets. -/
structure Same (s s' : Hosted tcp σ τ) : Prop where
  left : Net.Same s.left.conn.view s.left.conn.history s'.left.conn.view s'.left.conn.history
  right : Net.Same s.right.conn.view s.right.conn.history s'.right.conn.view s'.right.conn.history

theorem Same.refl (s : Hosted tcp σ τ) : Same s s :=
  ⟨.refl _ _, .refl _ _⟩

theorem Same.trans {s s' s'' : Hosted tcp σ τ} (h : Same s s') (h' : Same s' s'') : Same s s'' :=
  ⟨h.left.trans h'.left, h.right.trans h'.right⟩

theorem Same.symm {s s' : Hosted tcp σ τ} (h : Same s s') : Same s' s :=
  ⟨h.left.symm, h.right.symm⟩

theorem Same.weight_eq {s s' : Hosted tcp σ τ} (h : Same s s') : s'.weight = s.weight := by
  obtain ⟨hleft, hright⟩ := h
  simp only [weight, Net.weight, hleft.view, hleft.accepted, hleft.delivered, hleft.received,
    hleft.acked, hright.view, hright.accepted, hright.delivered, hright.received, hright.acked]

/-- Both have their stream, and there was no reset. -/
structure Connected (s : Hosted tcp σ τ) : Prop where
  left : s.left.Runs
  right : s.right.Runs
  reset : s.left.conn.history.reset = false
  reset' : s.right.conn.history.reset = false

/-- What has happened is bounded by what was accepted for sending. -/
theorem Inv.weight_le {s : Hosted tcp σ τ} (h : s.Inv P Q) :
    s.weight ≤ 4 * (s.left.conn.history.accepted.length + s.right.conn.history.accepted.length) +
      12 := by
  obtain ⟨⟨hforth, -⟩, hback, -⟩ := h.pipes
  have hreceived := (h.ends.joined false).inOrder.length_le
  have hreceived' := (h.ends.joined true).inOrder.length_le
  have hsent := congrArg List.length (h.ends.conn false).sound.sent
  have hsent' := congrArg List.length (h.ends.conn true).sound.sent
  have hage : ∀ st : TcpState, st.age ≤ 6 := fun st => by cases st <;> decide
  have hleft := hage s.left.conn.view.state
  have hright := hage s.right.conn.view.state
  have hforth' := hforth.length_le
  have hback' := hback.length_le
  rw [List.length_append] at hsent hsent'
  simp only [weight, Net.weight]
  simp only [Hosted.ends, Bool.not_false, Bool.not_true] at hreceived hreceived' hsent hsent'
  omega

variable [tcp.Documented]

theorem weight_next {s s' : Hosted tcp σ τ} {a : Label W} (hinv : s.Inv P Q)
    (h : s.Connected) (h' : s'.Connected) (hnext : s.next P Q a = some s') :
    s.weight < s'.weight ∨ s.Same s' := by
  cases a with
  | left l =>
    obtain ⟨left, hleft, rfl⟩ := Option.map_eq_some_iff.mp hnext
    rcases (Host.next_cases hleft).weight (hinv.ends.conn false) hinv.left h.left.2 h'.reset with
      hless | hsame
    · exact .inl (Nat.add_lt_add_right hless _)
    · exact .inr ⟨hsame, .refl _ _⟩
  | right l =>
    obtain ⟨right, hright, rfl⟩ := Option.map_eq_some_iff.mp hnext
    rcases (Host.next_cases hright).weight (hinv.ends.conn true) hinv.right h.right.2 h'.reset' with
      hless | hsame
    · exact .inl (Nat.add_lt_add_left hless _)
    · exact .inr ⟨.refl _ _, hsame⟩

/-- What the programs are like on a stream does not change, or they have less to do. -/
theorem todo_next {I : σ → List UInt8 → List UInt8 → Prop} {J : τ → List UInt8 → List UInt8 → Prop}
    {todo : σ → Nat} {todo' : τ → Nat} (hI : Keeps P.op P.start I) (hJ : Keeps Q.op Q.start J)
    (hp : Bounds P.op I todo) (hq : Bounds Q.op J todo') {s s' : Hosted tcp σ τ} {a : Label W}
    (h : (machine tcp P Q).ReachableBy ok s) (hok : s.ok a) (hnext : s.next P Q a = some s') :
    (∀ t, s.Shows t → s'.Shows t) ∨
      todo s'.left.prog + todo' s'.right.prog < todo s.left.prog + todo' s.right.prog := by
  obtain ⟨t, ht, hshows⟩ := Reachable.shows h
  rcases hshows.next (Reachable.inv h) (Reachable.inv (h.step hok hnext)) hnext with
    hsame | ⟨b, t', hb, hshows'⟩
  · refine .inl fun t₁ ht₁ => ?_
    exact ⟨ht₁.left.trans (hshows.left.symm.trans hsame.left),
      ht₁.right.trans (hshows.right.symm.trans hsame.right),
      ⟨ht₁.forth.written.trans (hshows.forth.written.symm.trans hsame.forth.written),
        ht₁.forth.read.trans (hshows.forth.read.symm.trans hsame.forth.read)⟩,
      ht₁.back.written.trans (hshows.back.written.symm.trans hsame.back.written),
      ht₁.back.read.trans (hshows.back.read.symm.trans hsame.back.read)⟩
  · have hless := todo_decreases hp hq (reachable_spec hI hJ ht) hb
    rw [hshows'.left, hshows'.right, hshows.left, hshows.right] at hless
    exact .inr hless

section Paths

variable (p : (machine tcp P Q).Path)

omit [tcp.Documented] in
/-- The left side of a path. -/
def lefts : (Host.machine tcp P).Path :=
  p.map Hosted.left (fun _ a => a.left?) (fun s ⟨self, _, hs⟩ => ⟨self, by rw [hs]⟩) (by
    intro s a s' _ hnext
    cases a with
    | left l =>
      obtain ⟨left, hleft, rfl⟩ := Option.map_eq_some_iff.mp hnext
      exact hleft
    | right l =>
      obtain ⟨right, -, rfl⟩ := Option.map_eq_some_iff.mp hnext
      rfl)

omit [tcp.Documented] in
/-- The right side of a run of both. -/
def rights : (Host.machine tcp Q).Path :=
  p.map Hosted.right (fun _ a => a.right?) (fun s ⟨_, self, hs⟩ => ⟨self, by rw [hs]⟩) (by
    intro s a s' _ hnext
    cases a with
    | left l =>
      obtain ⟨left, -, rfl⟩ := Option.map_eq_some_iff.mp hnext
      rfl
    | right l =>
      obtain ⟨right, hright, rfl⟩ := Option.map_eq_some_iff.mp hnext
      exact hright)

/-- What TCP promises is kept, both programs go on, and TCP brings what there is to bring. -/
structure Fair : Prop where
  ok : ∀ n a, p.label n = some a → (p.state n).ok a
  left : Host.GoesOn (lefts p)
  right : Host.GoesOn (rights p)
  forth : Host.Brings (lefts p) (rights p)
  back : Host.Brings (rights p) (lefts p)

variable {p}

section Rest

variable {I : σ → List UInt8 → List UInt8 → Prop} {J : τ → List UInt8 → List UInt8 → Prop}
  {todo : σ → Nat} {todo' : τ → Nat}

/-- Two programs that have only so much to do have done all that they do at some time. -/
theorem exists_shows (hI : Keeps P.op P.start I) (hJ : Keeps Q.op Q.start J)
    (hp : Bounds P.op I todo) (hq : Bounds Q.op J todo')
    (hok : ∀ n a, p.label n = some a → (p.state n).ok a) (n₀ : Nat) : ∃ N t, n₀ ≤ N ∧
      (Duplex.machine P.op Q.op P.start Q.start (65535 + 65535) (65535 + 65535)).Reachable t ∧
        ∀ n, N ≤ n → (p.state n).Shows t := by
  have hstep : ∀ n, (∀ t, (p.state n).Shows t → (p.state (n + 1)).Shows t) ∨
      todo (p.state (n + 1)).left.prog + todo' (p.state (n + 1)).right.prog <
        todo (p.state n).left.prog + todo' (p.state n).right.prog := by
    intro n
    cases hlabel : p.label n with
    | none =>
      rw [p.state_of_label hlabel]
      exact .inl fun t ht => ht
    | some a =>
      exact todo_next hI hJ hp hq (p.reachableBy hok n) (hok n a hlabel) (p.next_of_label hlabel)
  let rest (n : Nat) : Nat := todo (p.state n).left.prog + todo' (p.state n).right.prog
  have hfalls : ∀ n, n₀ ≤ n → rest (n + 1) ≤ rest n := by
    intro n _
    rcases hstep n with hsame | hless
    · obtain ⟨t, -, hshows⟩ := Reachable.shows (p.reachableBy hok n)
      have hsame' := hsame t hshows
      refine Nat.le_of_eq ?_
      simp only [rest]
      rw [← hsame'.left, ← hsame'.right, ← hshows.left, ← hshows.right]
    · exact Nat.le_of_lt hless
  obtain ⟨N, hN, hrest⟩ := RustyHermit.exists_rest hfalls
  obtain ⟨t, ht, hshows⟩ := Reachable.shows (p.reachableBy hok N)
  refine ⟨N, t, hN, ht, fun n hn => ?_⟩
  induction hn with
  | refl => exact hshows
  | @step n hn ih =>
    exact ((hstep n).resolve_right fun hless => Nat.ne_of_lt hless (hrest n hn)) t ih

/-- From some time on nothing happens to the sockets, and the programs stay where they are. -/
theorem exists_same (hI : Keeps P.op P.start I) (hJ : Keeps Q.op Q.start J)
    (hp : Bounds P.op I todo) (hq : Bounds Q.op J todo')
    (hok : ∀ n a, p.label n = some a → (p.state n).ok a) {n₀ : Nat}
    (hconnected : ∀ n, n₀ ≤ n → (p.state n).Connected) : ∃ N t, n₀ ≤ N ∧
      (Duplex.machine P.op Q.op P.start Q.start (65535 + 65535) (65535 + 65535)).Reachable t ∧
        ∀ n, N ≤ n → (p.state n).Shows t ∧ (p.state N).Same (p.state n) := by
  obtain ⟨M, t, hM, ht, hshows⟩ := exists_shows hI hJ hp hq hok n₀
  have hstep : ∀ n, M ≤ n → (p.state n).weight < (p.state (n + 1)).weight ∨
      (p.state n).Same (p.state (n + 1)) := by
    intro n hn
    cases hlabel : p.label n with
    | none =>
      rw [p.state_of_label hlabel]
      exact .inr (.refl _)
    | some a =>
      have hn' := Nat.le_trans hM hn
      exact weight_next (Reachable.inv (p.reachableBy hok n)) (hconnected n hn')
        (hconnected (n + 1) (Nat.le_succ_of_le hn')) (p.next_of_label hlabel)
  -- what was accepted does not grow any more, so the weight is bounded
  have hbounded : ∀ n, M ≤ n →
      (p.state n).weight ≤ 4 * (t.forth.written.length + t.back.written.length) + 12 := by
    intro n hn
    rw [(hshows n hn).forth.written, (hshows n hn).back.written]
    exact (Reachable.inv (p.reachableBy hok n)).weight_le
  let left (n : Nat) : Nat :=
    4 * (t.forth.written.length + t.back.written.length) + 12 - (p.state n).weight
  have hfalls : ∀ n, M ≤ n → left (n + 1) ≤ left n := by
    intro n hn
    rcases hstep n hn with hless | hsame
    · exact Nat.sub_le_sub_left (Nat.le_of_lt hless) _
    · exact Nat.sub_le_sub_left (Nat.le_of_eq hsame.weight_eq.symm) _
  obtain ⟨N, hN, hrest⟩ := RustyHermit.exists_rest hfalls
  refine ⟨N, t, Nat.le_trans hM hN, ht, fun n hn => ⟨hshows n (Nat.le_trans hN hn), ?_⟩⟩
  induction hn with
  | refl => exact .refl _
  | @step n hn ih =>
    have hn' := Nat.le_trans hN hn
    have hbound := hbounded (n + 1) (Nat.le_succ_of_le hn')
    have heq : left (n + 1) = left n := hrest n hn
    refine ih.trans ((hstep n hn').resolve_left fun hless => ?_)
    simp only [left] at heq
    omega

/-- **Programs on sockets come to rest where they are stuck over a stream**, if they have only so
much to do there and none of them still writes when the other one has stopped. -/
theorem Fair.comes_to_rest (h : Fair p) (hI : Keeps P.op P.start I) (hJ : Keeps Q.op Q.start J)
    (hp : Bounds P.op I todo) (hq : Bounds Q.op J todo')
    (hwrites : ∀ t, (Duplex.machine P.op Q.op P.start Q.start (65535 + 65535)
      (65535 + 65535)).Reachable t →
      (Q.op t.right = .stop → (P.op t.left).writes = false) ∧
        (P.op t.left = .stop → (Q.op t.right).writes = false)) {n₀ : Nat}
    (hconnected : ∀ n, n₀ ≤ n → (p.state n).Connected) : ∃ N t, n₀ ≤ N ∧
      (Duplex.machine P.op Q.op P.start Q.start (65535 + 65535) (65535 + 65535)).Reachable t ∧
        (∀ n, N ≤ n → (p.state n).Shows t) ∧ Stuck P.op Q.op t := by
  obtain ⟨N, t, hN, ht, hrest⟩ := exists_same hI hJ hp hq h.ok hconnected
  refine ⟨N, t, hN, ht, fun n hn => (hrest n hn).1, ?_⟩
  have hspec := reachable_spec hI hJ ht
  have hinv : ∀ n, (p.state n).Inv P Q := fun n => Reachable.inv (p.reachableBy h.ok n)
  have hconn : ∀ n, N ≤ n → (p.state n).Connected := fun n hn => hconnected n (Nat.le_trans hN hn)
  have hconnN := hconn N (Nat.le_refl N)
  have hforth : Quiet (p.state N).left.conn (p.state N).right.conn :=
    h.forth.quiet hconnN.left hconnN.right (fun n hn => (hrest n hn).2.left)
      fun n hn => (hrest n hn).2.right
  have hback : Quiet (p.state N).right.conn (p.state N).left.conn :=
    h.back.quiet hconnN.right hconnN.left (fun n hn => (hrest n hn).2.right)
      fun n hn => (hrest n hn).2.left
  have hresting : ∀ n, N ≤ n → Resting (p.state n).left.conn (p.state n).right.conn := by
    intro n hn
    obtain ⟨hsame, hsame'⟩ := (hrest n hn).2
    exact (hinv n).resting (Reachable.up (p.reachableBy h.ok n)) (hconn n hn).left.2
      (hconn n hn).right.2 (hconn n hn).reset (hconn n hn).reset' (hforth.congr hsame hsame')
      (hback.congr hsame' hsame)
  have hstep : ∀ n, N ≤ n → (p.state n).Same (p.state (n + 1)) := fun n hn =>
    (hrest n hn).2.symm.trans (hrest (n + 1) (Nat.le_succ_of_le hn)).2
  refine stuck_of_blocked ?_ ?_
  · refine h.left.blocked (N := N)
      (fun n hn => (hrest n hn).1.left.symm) (fun prog' hgoto heq => ?_)
      (fun n hn => (hconn n hn).left) (fun n _ => (hinv n).left)
      (fun n _ => (hinv n).ends.conn false) hresting (fun n hn => (hstep n hn).left)
      (fun n hn hne => ?_) (fun n hn => (hrest n hn).1.forth) fun n hn => (hrest n hn).1.back
    · have hless := hp _ _ _ hspec.left
      rw [hgoto, heq] at hless
      exact Nat.lt_irrefl _ hless
    · refine (hwrites t ht).1 ?_
      rw [(hrest n hn).1.right]
      exact (hinv n).right.closing ((hinv n).right.closes hne)
  · refine h.right.blocked (N := N)
      (fun n hn => (hrest n hn).1.right.symm) (fun prog' hgoto heq => ?_)
      (fun n hn => (hconn n hn).right) (fun n _ => (hinv n).right)
      (fun n _ => (hinv n).ends.conn true) (fun n hn => (hresting n hn).symm)
      (fun n hn => (hstep n hn).right)
      (fun n hn hne => ?_) (fun n hn => (hrest n hn).1.back) fun n hn => (hrest n hn).1.forth
    · have hless := hq _ _ _ hspec.right
      rw [hgoto, heq] at hless
      exact Nat.lt_irrefl _ hless
    · refine (hwrites t ht).2 ?_
      rw [(hrest n hn).1.left]
      exact (hinv n).left.closing ((hinv n).left.closes hne)

end Rest

omit [tcp.Documented] in
/-- Two programs that are handed their sockets have them from then on, if no call fails. -/
theorem connected_of_handed {n₀ : Nat} (hleft : (p.state n₀).left.conn.stage = .handed)
    (hright : (p.state n₀).right.conn.stage = .handed)
    (hreset : ∀ n, (p.state n).left.conn.history.reset = false ∧
      (p.state n).right.conn.history.reset = false)
    (hlost : ∀ n, n₀ ≤ n → ((p.state n).left.failed = true → (p.state n).left.Lost) ∧
      ((p.state n).right.failed = true → (p.state n).right.Lost))
    (n : Nat) (hn : n₀ ≤ n) : (p.state n).Connected where
  left := Host.runs_of_lost (Host.handed_of_le (p := lefts p) hn hleft) (hreset n).1 (hlost n hn).1
  right := Host.runs_of_lost (Host.handed_of_le (p := rights p) hn hright) (hreset n).2
    (hlost n hn).2
  reset := (hreset n).1
  reset' := (hreset n).2

end Paths

/-! ### A run that comes to an end -/

/-- A run, and after it nothing. -/
def pathOfRun {labels : List (Label Unit)} {s : Hosted (reference Unit) σ τ}
    (h : runOnSockets P Q labels = some s) : (machine (reference Unit) P Q).Path :=
  .ofRun ⟨0, 0, rfl⟩ (Machine.run_of_runBy h)

theorem pathOfRun_state {labels : List (Label Unit)} {s : Hosted (reference Unit) σ τ}
    (h : runOnSockets P Q labels = some s) {n : Nat} (hn : labels.length ≤ n) :
    (pathOfRun h).state n = s :=
  Machine.Path.ofRun_state _ _ hn

/-- At its end both programs have their connection. -/
theorem handed_pathOfRun {labels : List (Label Unit)} {s : Hosted (reference Unit) σ τ}
    (h : runOnSockets P Q labels = some s) (hleft : Drained P s.left) (hright : Drained Q s.right) :
    ∃ n, ((pathOfRun h).state n).left.conn.stage = .handed ∧
      ((pathOfRun h).state n).right.conn.stage = .handed := by
  refine ⟨labels.length, ?_⟩
  rw [pathOfRun_state h (Nat.le_refl _)]
  exact ⟨hleft.runs.2, hright.runs.2⟩

/-- What has not happened at its end has not happened before. -/
theorem pathOfRun_sound {labels : List (Label Unit)} {s : Hosted (reference Unit) σ τ}
    (h : runOnSockets P Q labels = some s) (hreset : s.left.conn.history.reset = false)
    (hreset' : s.right.conn.history.reset = false) (hfailed : s.right.failed = false) (n : Nat) :
    (((pathOfRun h).state n).left.conn.history.reset = false ∧
      ((pathOfRun h).state n).right.conn.history.reset = false) ∧
      ((pathOfRun h).state n).right.failed = false := by
  have hlast : (pathOfRun h).state (max n labels.length) = s :=
    pathOfRun_state h (Nat.le_max_right n labels.length)
  have hn := Nat.le_max_left n labels.length
  rw [← hlast] at hreset hreset' hfailed
  exact ⟨⟨Host.reset_of_le (p := lefts (pathOfRun h)) hn hreset,
    Host.reset_of_le (p := rights (pathOfRun h)) hn hreset'⟩,
    Host.failed_of_le (p := rights (pathOfRun h)) hn hfailed⟩

/-- Such a run is fair if both programs are over, and all that they have sent has come. -/
theorem fair_pathOfRun {labels : List (Label Unit)} {s : Hosted (reference Unit) σ τ}
    (h : runOnSockets P Q labels = some s) (hleft : Drained P s.left) (hright : Drained Q s.right)
    (hforth : s.right.conn.history.received = s.left.conn.history.accepted)
    (hback : s.left.conn.history.received = s.right.conn.history.accepted) :
    Fair (pathOfRun h) := by
  have hstate : ∀ n, labels.length ≤ n → (pathOfRun h).state n = s := fun n => pathOfRun_state h
  have hhalted := hleft.halted hright hforth hback
  constructor
  · exact fun n a ha => of_decide_eq_true (Machine.Path.ok_of_runBy h n a ha)
  · refine Host.goesOn_of_stop (m := labels.length) fun n hn => ?_
    show P.op ((pathOfRun h).state n).left.prog = .stop
    rw [hstate n hn]
    exact hleft.stop
  · refine Host.goesOn_of_stop (m := labels.length) fun n hn => ?_
    show Q.op ((pathOfRun h).state n).right.prog = .stop
    rw [hstate n hn]
    exact hright.stop
  · refine fun n _ => ⟨max n labels.length, Nat.le_max_left _ _, .inl ?_⟩
    show Quiet ((pathOfRun h).state _).left.conn ((pathOfRun h).state _).right.conn
    rw [hstate _ (Nat.le_max_right _ _)]
    exact hhalted.forth
  · refine fun n _ => ⟨max n labels.length, Nat.le_max_left _ _, .inl ?_⟩
    show Quiet ((pathOfRun h).state _).right.conn ((pathOfRun h).state _).left.conn
    rw [hstate _ (Nat.le_max_right _ _)]
    exact hhalted.back

end Hosted

end Net

end RustyHermit
