import RustyHermit.Lib.Duplex
import RustyHermit.Net.ReadWrite

/-!
# A connection between two sockets

Two sockets, each with any number of threads that connect, accept, read, write and
close. What TCP promises between them is `Promised`: octets are received in the order in
which they were accepted for sending, only what was received is acknowledged, a FIN is
sent by `close` and comes after the last octet, and no more is sent than the receive
buffer holds. A step that breaks the promise does not happen.

- `reliable`: what reads on the one side return is a prefix of what writes on the
  other have reported as accepted. It is all of it when a read reports the end of the stream;
  and once a `close` has returned `Ok`, nothing is on its way any more.
- `refines`: seen from the calls, each direction is a `Pipe` that holds as much as the two
  buffers. A write that reports `n` puts `n` octets in, a read takes out what it returns, and
  nothing else that happens to the two sockets moves an octet.
-/

namespace RustyHermit.Net

open RustyHermit.Smoltcp

variable {W : Type} {tcp : SmolTcp W} {ι : Type}

/-! ## One socket, once more -/

/-- What an expired socket and the send queue are like. -/
structure Kept (v : TcpView) (k : History) : Prop where
  expired : k.expired = true → v.state = .closed
  delivered : k.delivered <+: k.received
  capacity : v.txCapacity = 65535
  tx : v.tx.length ≤ v.txCapacity

/-- A closed socket is seen by no section that does anything to it. -/
theorem Kept.step {self : Handle} {v v' : TcpView} {k : History} {fut : Future}
    {progress : Progress} (h : Kept v k) (hs : Sound v k) (hfresh : fut.opens = true → Fresh v k)
    (hstep : Future.Step self v fut progress v') : Kept v' (k.record v fut progress) := by
  have hread : ended v.state = false → k.expired = false := by
    intro hended
    by_contra hexpired
    rw [h.expired (Bool.not_eq_false _ ▸ hexpired)] at hended
    cases hended
  cases hstep with
  | connectStart remote hspec =>
    refine ⟨fun hexpired => ?_, h.delivered, h.capacity, Nat.zero_le _⟩
    rw [(hfresh rfl).history] at hexpired
    cases hexpired
  | acceptStart =>
    refine ⟨fun hexpired => ?_, h.delivered, h.capacity, Nat.zero_le _⟩
    rw [(hfresh rfl).history] at hexpired
    cases hexpired
  | @readBytes len hended hcan =>
    refine ⟨h.expired, ?_, h.capacity, h.tx⟩
    show k.delivered ++ v.rx.take len <+: k.received
    rw [← hs.received (hread hended)]
    exact (List.prefix_append_right_inj _).mpr (List.take_prefix _ _)
  | readEnd =>
    refine ⟨h.expired, ?_, h.capacity, h.tx⟩
    show k.delivered ++ [] <+: k.received
    rw [List.append_nil]
    exact h.delivered
  | @writeBytes buffer hended hmay hcan =>
    refine ⟨h.expired, h.delivered, h.capacity, ?_⟩
    show (v.tx ++ buffer.take v.room).length ≤ v.txCapacity
    have htake := List.length_take_le v.room buffer
    have htx := h.tx
    rw [List.length_append, TcpView.room] at *
    omega
  | close hended htx =>
    refine ⟨fun hexpired => ?_, h.delivered, h.capacity, h.tx⟩
    exact absurd ((hread hended).symm.trans hexpired) Bool.false_ne_true
  | _ => exact ⟨h.expired, h.delivered, h.capacity, h.tx⟩

theorem Kept.segment {v : TcpView} {k : History} (h : Kept v k) (g : Segment) :
    Kept (v.process g) (k.segment v g) where
  expired hexpired := by
    show v.state.process g = .closed
    rw [h.expired hexpired]
    rfl
  delivered := h.delivered.trans (List.prefix_append _ _)
  capacity := h.capacity
  tx := by
    have htx := h.tx
    show (v.tx.drop _).length ≤ v.txCapacity
    rw [List.length_drop]
    omega

theorem Kept.expire {v : TcpView} {k : History} (h : Kept v k) : Kept v.expire (k.expire v) := by
  by_cases hst : v.state = .timeWait
  · have hv : v.expire = v.opened .closed .unspecified := by
      simp only [TcpView.expire, hst]
    rw [hv]
    exact ⟨fun _ => rfl, h.delivered, h.capacity, Nat.zero_le _⟩
  · obtain ⟨hv, hk⟩ := expire_same k hst
    rw [hv, hk]
    exact h

namespace Conn

variable [DecidableEq ι] [tcp.Documented]

/-- A section that is executed is one the thread may be in. -/
theorem Inv.kept_polled {s : Conn tcp ι} (h : s.Inv) (hk : Kept s.view s.history) {i : ι}
    {fut : Future} (hi : s.calls i = some fut) (cx : W) (localPort : UInt16) :
    Kept (s.polled i fut cx localPort).view (s.polled i fut cx localPort).history := by
  refine hk.step h.sound (fun hopens => ?_) (s.step_spec fut cx localPort)
  rcases h.caller hi with ⟨-, hopening, -⟩ | ⟨-, husing, -⟩
  · exact hopening.fresh hopens
  · rw [husing.not_opens] at hopens
    cases hopens

theorem kept_next {s s' : Conn tcp ι} {l : Label W ι} (h : s.Inv) (hk : Kept s.view s.history)
    (hnext : s.next l = some s') : Kept s'.view s'.history := by
  cases l with
  | «open» i fut =>
    obtain ⟨-, hs'⟩ := Option.ite_none_right_eq_some.mp hnext
    cases hs'
    exact hk
  | call i fut =>
    obtain ⟨-, hs'⟩ := Option.ite_none_right_eq_some.mp hnext
    cases hs'
    exact hk
  | poll i cx localPort =>
    obtain ⟨fut, hi, rfl⟩ := Option.map_eq_some_iff.mp hnext
    exact h.kept_polled hk hi cx localPort
  | drop i =>
    obtain ⟨fut, -, rfl⟩ := Option.map_eq_some_iff.mp hnext
    exact hk
  | segment g =>
    cases hnext
    have hview : tcp.view (tcp.process s.socket g) = s.view.process g :=
      SmolTcp.Documented.process_view ..
    simp only [view, hview]
    exact hk.segment g
  | expire =>
    cases hnext
    have hview : tcp.view (tcp.expire s.socket) = s.view.expire :=
      SmolTcp.Documented.expire_view ..
    simp only [view, hview]
    exact hk.expire

omit [DecidableEq ι] in
theorem kept_new (self : Handle) :
    Kept (new self : Conn tcp ι).view (new self : Conn tcp ι).history := by
  have hview : (new self : Conn tcp ι).view = ⟨.closed, .unspecified, [], [], 65535⟩ :=
    SmolTcp.Documented.new_view ..
  rw [hview]
  exact ⟨fun _ => rfl, List.prefix_rfl, rfl, Nat.zero_le _⟩

end Conn

/-! ## What a call moves -/

/-- The octets of its slice that a write reports as accepted. -/
def Future.wrote : Future → Progress → List UInt8
  | .write buffer, .ready (.ok (.count n)) => buffer.take n
  | _, _ => []

/-- The octets that a read returns. -/
def Future.took : Future → Progress → List UInt8
  | .read _, .ready (.ok (.bytes bytes)) => bytes
  | _, _ => []

theorem History.record_accepted (k : History) (v : TcpView) (fut : Future) (progress : Progress) :
    (k.record v fut progress).accepted = k.accepted ++ fut.wrote progress := by
  unfold History.record Future.wrote
  split <;> simp_all

theorem History.record_delivered (k : History) (v : TcpView) (fut : Future) (progress : Progress) :
    (k.record v fut progress).delivered = k.delivered ++ fut.took progress := by
  unfold History.record Future.took
  split <;> simp_all

/-- What segments bring is not for a call to change. -/
theorem History.record_segments (k : History) (v : TcpView) (fut : Future) (progress : Progress) :
    (k.record v fut progress).received = k.received ∧
    (k.record v fut progress).acked = k.acked ∧
    (k.record v fut progress).fin = k.fin ∧
    (k.closes ≠ [] → (k.record v fut progress).closes ≠ []) := by
  unfold History.record
  split
  · exact ⟨rfl, rfl, rfl, id⟩
  · exact ⟨rfl, rfl, rfl, id⟩
  · exact ⟨rfl, rfl, rfl, fun _ => List.cons_ne_nil _ _⟩
  · exact ⟨rfl, rfl, rfl, id⟩
  · exact ⟨rfl, rfl, rfl, id⟩

/-- Nothing comes into the receive buffer by a call. -/
theorem Future.Step.length_rx_le {self : Handle} {v v' : TcpView} {fut : Future}
    {progress : Progress} (h : Future.Step self v fut progress v') :
    v'.rx.length ≤ v.rx.length := by
  cases h with
  | connectStart | acceptStart => exact Nat.zero_le _
  | readBytes =>
    rw [List.length_drop]
    exact Nat.sub_le _ _
  | _ => exact Nat.le_refl _

namespace Conn

/-- What a step writes. -/
def wrote (s : Conn tcp ι) : Label W ι → List UInt8
  | .poll i cx localPort =>
    match s.calls i with
    | some fut => fut.wrote (s.step fut cx localPort).1
    | none => []
  | _ => []

/-- What a step reads. -/
def took (s : Conn tcp ι) : Label W ι → List UInt8
  | .poll i cx localPort =>
    match s.calls i with
    | some fut => fut.took (s.step fut cx localPort).1
    | none => []
  | _ => []

/-- What a step does to the stream of octets: a call moves what it reports, a segment what
it carries. -/
structure Moved (s : Conn tcp ι) (l : Label W ι) (s' : Conn tcp ι) : Prop where
  accepted : s'.history.accepted = s.history.accepted ++ s.wrote l
  delivered : s'.history.delivered = s.history.delivered ++ s.took l
  closes : s.history.closes ≠ [] → s'.history.closes ≠ []
  segments : (∃ g, l = .segment g ∧ s'.history = s.history.segment s.view g ∧
      s'.view.rx = s.view.rx ++ s.view.taken g) ∨
    (s'.history.received = s.history.received ∧ s'.history.acked = s.history.acked ∧
      s'.history.fin = s.history.fin ∧ s'.view.rx.length ≤ s.view.rx.length)

variable [DecidableEq ι] [tcp.Documented]

theorem moved_of_next {s s' : Conn tcp ι} {l : Label W ι} (h : s.next l = some s') :
    s.Moved l s' := by
  have happend : ∀ xs : List UInt8, xs = xs ++ [] := fun xs => (List.append_nil xs).symm
  cases l with
  | «open» i fut =>
    obtain ⟨-, hs'⟩ := Option.ite_none_right_eq_some.mp h
    cases hs'
    exact ⟨happend _, happend _, id, .inr ⟨rfl, rfl, rfl, Nat.le_refl _⟩⟩
  | call i fut =>
    obtain ⟨-, hs'⟩ := Option.ite_none_right_eq_some.mp h
    cases hs'
    exact ⟨happend _, happend _, id, .inr ⟨rfl, rfl, rfl, Nat.le_refl _⟩⟩
  | poll i cx localPort =>
    obtain ⟨fut, hi, rfl⟩ := Option.map_eq_some_iff.mp h
    have hsame := s.history.record_segments s.view fut (s.step fut cx localPort).1
    refine ⟨?_, ?_, hsame.2.2.2, .inr ⟨hsame.1, hsame.2.1, hsame.2.2.1, ?_⟩⟩
    · rw [wrote, hi]
      exact s.history.record_accepted _ _ _
    · rw [took, hi]
      exact s.history.record_delivered _ _ _
    · exact (s.step_spec fut cx localPort).length_rx_le
  | drop i =>
    obtain ⟨fut, -, rfl⟩ := Option.map_eq_some_iff.mp h
    exact ⟨happend _, happend _, id, .inr ⟨rfl, rfl, rfl, Nat.le_refl _⟩⟩
  | segment g =>
    cases h
    refine ⟨happend _, happend _, id, .inl ⟨g, rfl, rfl, ?_⟩⟩
    exact congrArg TcpView.rx (SmolTcp.Documented.process_view ..)
  | expire =>
    cases h
    have hview : tcp.view (tcp.expire s.socket) = s.view.expire :=
      SmolTcp.Documented.expire_view ..
    refine ⟨happend _, happend _, id, .inr ⟨rfl, rfl, rfl, ?_⟩⟩
    simp only [view, hview, TcpView.expire]
    split
    · exact Nat.zero_le _
    · exact Nat.le_refl _

end Conn

/-! ## Two sockets -/

/-- Two sockets, one on either side. -/
abbrev Ends {W : Type} (tcp : SmolTcp W) (ι : Type) := Bool → Conn tcp ι

namespace Ends

/-- What TCP promises of a segment that `dst` takes and that `src` has sent. -/
structure Promised (src dst : Conn tcp ι) (g : Segment) : Prop where
  /-- its octets are the next ones that were accepted for sending -/
  octets : dst.history.received ++ dst.view.taken g <+: src.history.accepted
  /-- and there is room for them in the receive buffer -/
  window : dst.view.rx.length + (dst.view.taken g).length ≤ 65535
  /-- only what `src` has received is acknowledged -/
  acks : dst.history.acked.length + (dst.view.acked g).length ≤ src.history.received.length
  /-- `src` sends a FIN when it is closed -/
  fin : History.takes .fin dst.view g = true → src.history.closes ≠ []

/-- A step of one side that TCP allows: of the segments, those that it promises. -/
def ok (s : Ends tcp ι) : Bool × Conn.Label W ι → Prop
  | (side, .segment g) => Promised (s !side) (s side) g
  | _ => True

/-- What is between `src` and `dst`. -/
structure Joined (src dst : Conn tcp ι) : Prop where
  inOrder : dst.history.received <+: src.history.accepted
  acks : src.history.acked.length ≤ dst.history.received.length
  fin : dst.history.fin = true → src.history.closes ≠ []
  window : dst.view.rx.length ≤ 65535
  unread : dst.history.received.length ≤ dst.history.delivered.length + 65535

/-- Octets that were received wait in the receive buffer. -/
theorem unread_of_sound {v : TcpView} {k : History} (h : Sound v k) (hexpired : k.expired = false)
    (hwindow : v.rx.length ≤ 65535) : k.received.length ≤ k.delivered.length + 65535 := by
  rw [← h.received hexpired, List.length_append]
  omega

/-- A socket that was closed has been acknowledged all that it sent, so all of it has come. -/
theorem Joined.received_eq {src dst : Conn tcp ι} (h : Joined src dst)
    (hsound : Sound src.view src.history) (hcloses : src.history.closes ≠ []) :
    dst.history.received = src.history.accepted := by
  have hacked : src.history.acked = src.history.accepted := by
    have hsent := hsound.sent
    rwa [(hsound.closes hcloses).1, List.append_nil] at hsent
  have hlength := h.acks
  rw [hacked] at hlength
  exact h.inOrder.eq_of_length_le hlength

/-- The octets on the way are in the one buffer or in the other. -/
theorem Joined.bounded {src dst : Conn tcp ι} (h : Joined src dst)
    (hsound : Sound src.view src.history) (hkept : Kept src.view src.history) :
    src.history.accepted.length ≤ dst.history.delivered.length + (65535 + 65535) := by
  have hacks := h.acks
  have hunread := h.unread
  have htx := hkept.tx
  rw [hkept.capacity] at htx
  rw [← hsound.sent, List.length_append]
  omega

/-- A step of the sender, if it takes a segment then one that was promised. -/
theorem Joined.src {src src' dst : Conn tcp ι} {l : Conn.Label W ι} (h : Joined src dst)
    (hmoved : src.Moved l src') (hok : ∀ g, l = .segment g → Promised dst src g) :
    Joined src' dst where
  inOrder := by
    rw [hmoved.accepted]
    exact h.inOrder.trans (List.prefix_append _ _)
  acks := by
    rcases hmoved.segments with ⟨g, hl, hk, -⟩ | ⟨-, hacked, -, -⟩
    · have hacks := (hok g hl).acks
      rw [hk, History.segment, List.length_append]
      exact hacks
    · rw [hacked]
      exact h.acks
  fin hfin := hmoved.closes (h.fin hfin)
  window := h.window
  unread := h.unread

/-- A step of the receiver. -/
theorem Joined.dst {src dst dst' : Conn tcp ι} {l : Conn.Label W ι} (h : Joined src dst)
    (hmoved : dst.Moved l dst') (hkept : Kept dst.view dst.history)
    (hsound : Sound dst'.view dst'.history)
    (hok : ∀ g, l = .segment g → Promised src dst g) : Joined src dst' := by
  rcases hmoved.segments with ⟨g, rfl, hk, hrx⟩ | ⟨hreceived, hacked, hfin, hrx⟩
  · have hpromised := hok g rfl
    have hwindow : dst'.view.rx.length ≤ 65535 := by
      rw [hrx, List.length_append]
      exact hpromised.window
    refine ⟨?_, ?_, ?_, hwindow, ?_⟩
    · rw [hk]
      exact hpromised.octets
    · have hacks := h.acks
      rw [hk, History.segment, List.length_append]
      omega
    · intro hfin
      rw [hk] at hfin
      rcases Bool.or_eq_true _ _ ▸ hfin with hfin | hfin
      · exact h.fin hfin
      · exact hpromised.fin hfin
    · cases hexpired : dst.history.expired with
      | false => exact unread_of_sound hsound (by rw [hk]; exact hexpired) hwindow
      | true =>
        -- a closed socket takes nothing
        have htaken : dst.view.taken g = [] := by
          rw [TcpView.taken, hkept.expired hexpired]
          split <;> rfl
        have hunread := h.unread
        rw [hk, History.segment, htaken, List.append_nil]
        exact hunread
  · have hunread := h.unread
    refine ⟨?_, ?_, ?_, Nat.le_trans hrx h.window, ?_⟩
    · rw [hreceived]
      exact h.inOrder
    · rw [hreceived]
      exact h.acks
    · rw [hfin]
      exact h.fin
    · rw [hreceived, hmoved.delivered, List.length_append]
      omega

/-- A promised segment is one that the other side has sent. -/
theorem promised_of_ok {s : Ends tcp ι} {side : Bool} {l : Conn.Label W ι} (hok : s.ok (side, l))
    (g : Segment) (hl : l = .segment g) : Promised (s !side) (s side) g := by
  subst hl
  exact hok

/-! ### Their runs -/

instance (src dst : Conn tcp ι) (g : Segment) : Decidable (Promised src dst g) :=
  decidable_of_iff
    (dst.history.received ++ dst.view.taken g <+: src.history.accepted ∧
      dst.view.rx.length + (dst.view.taken g).length ≤ 65535 ∧
      dst.history.acked.length + (dst.view.acked g).length ≤ src.history.received.length ∧
      (History.takes .fin dst.view g = true → src.history.closes ≠ []))
    ⟨fun ⟨octets, window, acks, fin⟩ => ⟨octets, window, acks, fin⟩,
      fun ⟨octets, window, acks, fin⟩ => ⟨octets, window, acks, fin⟩⟩

instance (s : Ends tcp ι) : (a : Bool × Conn.Label W ι) → Decidable (s.ok a)
  | (side, .segment g) => inferInstanceAs (Decidable (Promised (s !side) (s side) g))
  | (_, .open ..) | (_, .call ..) | (_, .poll ..) | (_, .drop _) | (_, .expire) =>
    inferInstanceAs (Decidable True)

variable [DecidableEq ι]

/-- A step of one side. -/
def next (s : Ends tcp ι) (a : Bool × Conn.Label W ι) : Option (Ends tcp ι) :=
  ((s a.1).next a.2).map (Function.update s a.1)

/-- All runs of two sockets. -/
def machine (tcp : SmolTcp W) (ι : Type) [DecidableEq ι] :
    Machine (Ends tcp ι) (Bool × Conn.Label W ι) where
  init s := ∀ side, ∃ self, s side = Conn.new self
  next := next

/-- The invariant of two sockets. -/
structure Inv (s : Ends tcp ι) : Prop where
  conn : ∀ side, (s side).Inv
  kept : ∀ side, Kept (s side).view (s side).history
  joined : ∀ side, Joined (s side) (s !side)

variable [tcp.Documented]

/-- A step that TCP allows keeps the invariant. -/
theorem Inv.next {s s' : Ends tcp ι} {a : Bool × Conn.Label W ι} (h : s.Inv) (hok : s.ok a)
    (hnext : s.next a = some s') : s'.Inv := by
  obtain ⟨side, l⟩ := a
  obtain ⟨c, hc, rfl⟩ := Option.map_eq_some_iff.mp hnext
  have hmoved := Conn.moved_of_next hc
  have hinv := Conn.inv_next (h.conn side) hc
  have hpromised := promised_of_ok hok
  have hother : Function.update s side c (!side) = s !side :=
    Function.update_of_ne (by cases side <;> decide) ..
  constructor
  · intro x
    by_cases hx : x = side
    · rw [hx, Function.update_self]
      exact hinv
    · rw [Function.update_of_ne hx]
      exact h.conn x
  · intro x
    by_cases hx : x = side
    · rw [hx, Function.update_self]
      exact Conn.kept_next (h.conn side) (h.kept side) hc
    · rw [Function.update_of_ne hx]
      exact h.kept x
  · intro x
    by_cases hx : x = side
    · rw [hx, Function.update_self, hother]
      exact (h.joined side).src hmoved hpromised
    · obtain rfl : x = !side := by cases x <;> cases side <;> simp_all
      have hjoined := h.joined (!side)
      rw [Bool.not_not] at hjoined ⊢
      rw [hother, Function.update_self]
      exact hjoined.dst hmoved (h.kept side) hinv.sound hpromised

theorem Reachable.inv {s : Ends tcp ι} (h : (machine tcp ι).ReachableBy ok s) : s.Inv := by
  refine h.invariant (I := Inv) ?_ fun _ _ _ hinv hok hnext => hinv.next hok hnext
  intro s hinit
  have hnew : ∀ side, ∃ self, s side = Conn.new self := hinit
  constructor
  · intro side
    obtain ⟨self, hself⟩ := hnew side
    rw [hself]
    exact Conn.inv_new self
  · intro side
    obtain ⟨self, hself⟩ := hnew side
    rw [hself]
    exact Conn.kept_new self
  · intro side
    obtain ⟨self, hself⟩ := hnew side
    obtain ⟨self', hself'⟩ := hnew (!side)
    have hview : (Conn.new self' : Conn tcp ι).view = ⟨.closed, .unspecified, [], [], 65535⟩ :=
      SmolTcp.Documented.new_view ..
    rw [hself, hself']
    refine ⟨List.prefix_rfl, Nat.le_refl _, nofun, ?_, Nat.zero_le _⟩
    rw [hview]
    exact Nat.zero_le _

/-! ## What the two sides see of each other -/

/-- The octets that are accepted at `src` are those that are read at `dst`. -/
structure Delivers (src dst : Conn tcp ι) : Prop where
  /-- what was read is a prefix of what was accepted -/
  inOrder : dst.history.delivered <+: src.history.accepted
  /-- no more is between the two than the buffers hold -/
  bounded : src.history.accepted.length ≤ dst.history.delivered.length + (65535 + 65535)
  /-- a read that reports the end of the stream of a connection has everything before it -/
  ends : ∀ i len cx localPort, dst.calls i = some (.read len) → 0 < len →
    dst.history.peer.isSome = true →
    (dst.step (.read len) cx localPort).1 = .ready (.ok (.bytes [])) →
    dst.history.delivered = src.history.accepted ∧ src.history.closes ≠ []
  /-- once a `close` has returned `Ok`, everything has been read or waits to be read -/
  flushed : src.history.closed = true → dst.history.expired = false →
    dst.history.delivered ++ dst.view.rx = src.history.accepted

omit [DecidableEq ι] [tcp.Documented] in
theorem Inv.inOrder {s : Ends tcp ι} (h : s.Inv) (side : Bool) :
    (s !side).history.delivered <+: (s side).history.accepted :=
  (h.kept (!side)).delivered.trans (h.joined side).inOrder

omit [DecidableEq ι] [tcp.Documented] in
theorem Inv.bounded {s : Ends tcp ι} (h : s.Inv) (side : Bool) :
    (s side).history.accepted.length ≤ (s !side).history.delivered.length + (65535 + 65535) :=
  (h.joined side).bounded (h.conn side).sound (h.kept side)

omit [DecidableEq ι] in
/-- `Ok(0)` is the end of the stream, and it has been read up to there. -/
theorem Inv.ends {s : Ends tcp ι} (h : s.Inv) (side : Bool) {i : ι} {len : Nat} (cx : W)
    (localPort : UInt16) (hi : (s !side).calls i = some (.read len)) (hlen : 0 < len)
    (hpeer : (s !side).history.peer.isSome = true)
    (hend : ((s !side).step (.read len) cx localPort).1 = .ready (.ok (.bytes []))) :
    (s !side).history.delivered = (s side).history.accepted ∧ (s side).history.closes ≠ [] := by
  have hinv := h.conn (!side)
  have hst : (s !side).stage = .handed := by
    rcases hinv.caller hi with ⟨-, hopening, -⟩ | ⟨hst, -, -⟩
    · exact hopening.elim
    · exact hst
  have hresult := Conn.readResult_of_step hinv.sound hlen (hinv.ended_cases hst)
    ((s !side).step_spec (.read len) cx localPort)
  obtain ⟨hrx, hfin⟩ := hresult.ends hend
  have hjoined := h.joined side
  have hcloses := hjoined.fin (hfin hpeer)
  refine ⟨?_, hcloses⟩
  -- a socket whose `TimeWait` has ended is closed, and there `read` fails
  have hexpired : (s !side).history.expired = false := by
    by_contra hexpired
    have hclosed := (h.kept (!side)).expired (Bool.not_eq_false _ ▸ hexpired)
    obtain ⟨e, he⟩ := hresult.fails.mpr (by rw [hclosed]; rfl)
    cases hend.symm.trans he
  have hreceived := hinv.sound.received hexpired
  rw [hrx, List.append_nil] at hreceived
  exact hreceived.trans (hjoined.received_eq (h.conn side).sound hcloses)

/-- **The stream is reliable**, in each direction and in every state of every run: what is
read is what was accepted, in order and without gaps; the end of the stream comes after all
of it, and after a `close` that has returned `Ok` nothing is on the way any more. -/
theorem reliable {s : Ends tcp ι} (h : (machine tcp ι).ReachableBy ok s) (side : Bool) :
    Delivers (s side) (s !side) := by
  have hinv := Reachable.inv h
  refine ⟨hinv.inOrder side, hinv.bounded side, ?_, ?_⟩
  · intro i len cx localPort hi hlen hpeer hend
    exact hinv.ends side cx localPort hi hlen hpeer hend
  · intro hclosed hexpired
    have hsound := (hinv.conn side).sound
    rw [(hinv.conn (!side)).sound.received hexpired]
    exact (hinv.joined side).received_eq hsound (hsound.closed hclosed)

/-- One side connects to the other, writes two octets and closes. -/
def writeAndClose : List (Bool × Conn.Label Unit Unit) :=
  [(false, .open () (.accept 80)), (false, .poll () () 0),
    (true, .open () (.connect remoteHostText 80)), (true, .poll () () 49152),
    (false, .segment (fromRemote .syn false 0 [])),
    (true, .segment (fromRemote .syn true 0 [])), (true, .poll () () 0),
    (false, .segment (fromRemote .none true 0 [])), (false, .poll () () 0),
    (false, .poll () () 0), (true, .call () (.write [1, 2])), (true, .poll () () 0),
    (false, .segment (fromRemote .none true 0 [1, 2])),
    (true, .segment (fromRemote .none true 2 [])), (true, .call () .close),
    (true, .poll () () 0), (false, .segment (fromRemote .fin true 0 [])),
    (false, .call () (.read 5)), (false, .poll () () 0), (false, .call () (.read 5))]

/-- The second read on the other side ends the stream, and the first one has returned both
octets. -/
theorem reliable_writeAndClose : ∃ s : Ends (reference Unit) Unit,
    (machine (reference Unit) Unit).runBy (fun s a => decide (s.ok a)) (fun _ => Conn.new 0)
      writeAndClose = some s ∧
    (s true).history.accepted = [1, 2] ∧
    (s false).history.delivered = (s true).history.accepted := by
  obtain ⟨s, hrun, hcall, hpeer, hend, haccepted⟩ : ∃ s : Ends (reference Unit) Unit,
      (machine (reference Unit) Unit).runBy (fun s a => decide (s.ok a)) (fun _ => Conn.new 0)
        writeAndClose = some s ∧
      (s false).calls () = some (.read 5) ∧ (s false).history.peer.isSome = true ∧
      ((s false).step (.read 5) () 0).1 = .ready (.ok (.bytes [])) ∧
      (s true).history.accepted = [1, 2] :=
    ⟨_, rfl, rfl, rfl, rfl, rfl⟩
  have hreach : (machine (reference Unit) Unit).ReachableBy ok s :=
    Machine.ReachableBy.runBy (fun _ _ => of_decide_eq_true)
      (.init fun _ => ⟨0, rfl⟩) hrun
  have hdelivers := reliable hreach true
  exact ⟨s, hrun, haccepted, (hdelivers.ends () 5 () 0 hcall (by decide) hpeer hend).1⟩

/-! ## The two sides are a pipe -/

/-- The stream from `src` to `dst`, as the calls see it. -/
structure Between (src dst : Conn tcp ι) (p : Pipe UInt8 (65535 + 65535)) : Prop where
  written : p.written = src.history.accepted
  read : p.read = dst.history.delivered

/-- What a step writes on the side `x`. -/
def wrote (s : Ends tcp ι) (a : Bool × Conn.Label W ι) (x : Bool) : List UInt8 :=
  if a.1 = x then (s x).wrote a.2 else []

/-- What a step reads on the side `x`. -/
def took (s : Ends tcp ι) (a : Bool × Conn.Label W ι) (x : Bool) : List UInt8 :=
  if a.1 = x then (s x).took a.2 else []

/-- What a step does on either side, the other one included. -/
theorem streams_next {s s' : Ends tcp ι} {a : Bool × Conn.Label W ι}
    (hnext : s.next a = some s') (x : Bool) :
    (s' x).history.accepted = (s x).history.accepted ++ s.wrote a x ∧
      (s' x).history.delivered = (s x).history.delivered ++ s.took a x := by
  obtain ⟨c, hc, rfl⟩ := Option.map_eq_some_iff.mp hnext
  have hmoved := Conn.moved_of_next hc
  by_cases hx : a.1 = x
  · subst hx
    rw [Function.update_self, wrote, took, if_pos rfl, if_pos rfl]
    exact ⟨hmoved.accepted, hmoved.delivered⟩
  · rw [Function.update_of_ne (Ne.symm hx), wrote, took, if_neg hx, if_neg hx, List.append_nil,
      List.append_nil]
    exact ⟨rfl, rfl⟩

theorem exists_between {s : Ends tcp ι} (h : (machine tcp ι).ReachableBy ok s) (side : Bool) :
    ∃ p, Between (s side) (s !side) p :=
  have hinv := Reachable.inv h
  ⟨⟨_, _, hinv.inOrder side, hinv.bounded side⟩, rfl, rfl⟩

omit [tcp.Documented] [DecidableEq ι] in
/-- A step that writes here does not read there. -/
theorem wrote_or_took (s : Ends tcp ι) (a : Bool × Conn.Label W ι) (side : Bool) :
    s.wrote a side = [] ∨ s.took a (!side) = [] := by
  by_cases ha : a.1 = side
  · refine .inr (if_neg ?_)
    rw [ha]
    cases side <;> decide
  · exact .inl (if_neg ha)

/-- **Two sockets are a pipe in either direction**: in every run, a step puts in at one end
what a write reports, takes out at the other end what a read returns, and moves nothing
otherwise. -/
theorem refines {s s' : Ends tcp ι} {a : Bool × Conn.Label W ι}
    (h : (machine tcp ι).ReachableBy ok s) (hok : s.ok a) (hnext : s.next a = some s')
    (side : Bool) : ∃ p p', Between (s side) (s !side) p ∧ Between (s' side) (s' !side) p' ∧
      p.Moves (s.wrote a side) (s.took a (!side)) p' := by
  obtain ⟨p, hp⟩ := exists_between h side
  obtain ⟨p', hp'⟩ := exists_between (h.step hok hnext) side
  refine ⟨p, p', hp, hp', Pipe.moves_of_append ?_ ?_ (s.wrote_or_took a side)⟩
  · rw [hp.written, hp'.written]
    exact (streams_next hnext side).1
  · rw [hp.read, hp'.read]
    exact (streams_next hnext (!side)).2

/-- In that run, the first read takes both octets out of the pipe. -/
theorem refines_read : ∃ (s s' : Ends (reference Unit) Unit) (p p' : Pipe UInt8 (65535 + 65535)),
    (machine (reference Unit) Unit).runBy (fun s a => decide (s.ok a)) (fun _ => Conn.new 0)
      (writeAndClose.take 18) = some s ∧
    s.next (false, .poll () () 0) = some s' ∧
    Between (s true) (s false) p ∧ Between (s' true) (s' false) p' ∧ p.Moves [] [1, 2] p' := by
  obtain ⟨s, s', hrun, hnext, hok, hwrote, htook⟩ : ∃ s s' : Ends (reference Unit) Unit,
      (machine (reference Unit) Unit).runBy (fun s a => decide (s.ok a)) (fun _ => Conn.new 0)
        (writeAndClose.take 18) = some s ∧
      s.next (false, .poll () () 0) = some s' ∧ decide (s.ok (false, .poll () () 0)) = true ∧
      s.wrote (false, .poll () () 0) true = [] ∧
      s.took (false, .poll () () 0) false = [1, 2] :=
    ⟨_, _, rfl, rfl, rfl, rfl, rfl⟩
  have hreach : (machine (reference Unit) Unit).ReachableBy ok s :=
    Machine.ReachableBy.runBy (fun _ _ => of_decide_eq_true)
      (.init fun _ => ⟨0, rfl⟩) hrun
  obtain ⟨p, p', hp, hp', hmoves⟩ := refines hreach (of_decide_eq_true hok) hnext true
  rw [hwrote] at hmoves
  exact ⟨s, s', p, p', hrun, hnext, hp, hp', htook ▸ hmoves⟩

end Ends

end RustyHermit.Net
