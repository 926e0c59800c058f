import RustyHermit.Lib.Machine
import RustyHermit.Net.History
import Mathlib.Logic.Function.Basic

/-!
# One socket and all the calls on it

A `Conn` is one socket of `nic.sockets` from `AsyncSocket::new` on, with every
call any thread makes on it. The thread that created it runs `connect` or
`accept`; only when that has returned `Ok` does the application have the handle,
and from then on any thread may read, write and close. One critical section of
one call is one step, and so is each segment `iface.poll` hands to the socket. A
call counts as completed at its ready poll, the last thing it does to the socket.
When a future is polled next is left open, so the machine covers both
`poll_on` and `block_on`, whatever they do in between.

- `Conn.machine`: all runs of one socket.
- `Conn.Inv`, `Conn.Reachable.inv`: in every reachable state the history is
  sound, and only the opening thread holds a future until the handle is there.
-/

namespace RustyHermit.Net

open RustyHermit.Smoltcp

/-! ## The machine -/

/-- Who has the handle of a socket. -/
inductive Stage (ι : Type) where
  /-- nobody has used it yet -/
  | new
  /-- thread `i` is in `connect` or `accept` -/
  | opening (i : ι)
  /-- the application: `connect` or `accept` has returned `Ok` -/
  | handed
  /-- nobody: `connect` or `accept` has returned without it -/
  | dropped
deriving DecidableEq

/-- The stage after a step of the thread that is opening the socket. -/
def Stage.after {ι : Type} : Stage ι → Progress → Stage ι
  | .opening _, .ready (.ok _) => .handed
  | .opening _, .ready (.error _) => .dropped
  | stage, _ => stage

/-- A socket and the calls on it. -/
structure Conn {W : Type} (tcp : SmolTcp W) (ι : Type) where
  self : Handle
  socket : tcp.Socket
  stage : Stage ι
  calls : ι → Option Future
  history : History

namespace Conn

variable {W : Type} {tcp : SmolTcp W} {ι : Type}

/-- What can be observed of the socket. -/
def view (s : Conn tcp ι) : TcpView :=
  tcp.view s.socket

/-- What can happen next. -/
inductive Label (W ι : Type) where
  /-- the creator `i` of the socket starts `connect` or `accept` -/
  | open (i : ι) (fut : Future)
  /-- thread `i` starts a call on the handle -/
  | call (i : ι) (fut : Future)
  /-- thread `i` executes the next critical section of its future -/
  | poll (i : ι) (cx : W) (localPort : UInt16)
  /-- thread `i` drops its future: the call timed out -/
  | drop (i : ι)
  /-- `iface.poll` hands a segment to the socket -/
  | segment (g : Segment)
  /-- `iface.poll` notices the end of `TimeWait` -/
  | expire

/-- The next critical section of `fut` on this socket. -/
def step (s : Conn tcp ι) (fut : Future) (cx : W) (localPort : UInt16) :
    Progress × tcp.Socket :=
  Future.step tcp s.self cx localPort s.socket fut

variable [DecidableEq ι]

/-- The state after that section, executed by thread `i`. -/
def polled (s : Conn tcp ι) (i : ι) (fut : Future) (cx : W) (localPort : UInt16) :
    Conn tcp ι :=
  let (progress, socket) := s.step fut cx localPort
  { s with
    socket
    stage := s.stage.after progress
    calls := Function.update s.calls i (fut.rest progress)
    history := s.history.record s.view fut progress }

/-- One step. -/
def next (s : Conn tcp ι) : Label W ι → Option (Conn tcp ι)
  | .open i fut =>
    if s.stage = .new ∧ fut.opens then
      some { s with stage := .opening i, calls := Function.update s.calls i (some fut) }
    else none
  | .call i fut =>
    if s.stage = .handed ∧ fut.uses ∧ (s.calls i).isNone then
      some { s with calls := Function.update s.calls i (some fut) }
    else none
  | .poll i cx localPort => (s.calls i).map fun fut => s.polled i fut cx localPort
  | .drop i =>
    (s.calls i).map fun _ => { s with
      stage := if s.stage = .opening i then .dropped else s.stage
      calls := Function.update s.calls i none }
  -- the interface may be polled at any time, whoever does it
  | .segment g =>
    some { s with
      socket := tcp.process s.socket g, history := s.history.segment s.view g }
  | .expire =>
    some { s with socket := tcp.expire s.socket, history := s.history.expire s.view }

/-- `AsyncSocket::new`. -/
def new (self : Handle) : Conn tcp ι :=
  { self
    socket := AsyncSocket.createHandle tcp
    stage := .new
    calls := fun _ => none
    history := .empty }

/-- All runs of one socket. -/
def machine (tcp : SmolTcp W) (ι : Type) [DecidableEq ι] :
    Machine (Conn tcp ι) (Label W ι) where
  init s := ∃ self, s = new self
  next := next

theorem reachable_new (self : Handle) : (machine tcp ι).Reachable (new self) :=
  .init ⟨self, rfl⟩

/-! ## The invariant -/

/-- Who may hold a future at this stage. -/
def Holders (s : Conn tcp ι) : Stage ι → Prop
  | .new => (∀ i, s.calls i = none) ∧ Fresh s.view s.history
  | .opening i => (∃ fut, s.calls i = some fut ∧ Opening s.view s.history fut) ∧
    ∀ j, j ≠ i → s.calls j = none
  | .handed => (∀ i fut, s.calls i = some fut → Using s.history fut) ∧
    Held s.view s.history
  | .dropped => ∀ i, s.calls i = none

/-- The invariant of a socket. -/
structure Inv (s : Conn tcp ι) : Prop where
  sound : Sound s.view s.history
  holders : s.Holders s.stage

variable [tcp.Documented]

omit [DecidableEq ι] in
theorem inv_new (self : Handle) : (new self : Conn tcp ι).Inv := by
  have hview : (new self : Conn tcp ι).view = ⟨.closed, .unspecified, [], [], 65535⟩ :=
    SmolTcp.Documented.new_view ..
  have hfresh : Fresh (new self : Conn tcp ι).view .empty := by
    rw [hview]
    exact ⟨rfl, rfl, rfl, rfl, rfl⟩
  refine ⟨?_, fun _ => rfl, hfresh⟩
  rw [hview]
  exact {
    before := fun _ => rfl, after := by simp, specified := by simp
    listening := by simp, reset := fun _ _ => rfl, fin := by simp
    shut := fun _ hne => absurd rfl hne, closes := fun hne => absurd rfl hne
    flushed := nofun, closed := nofun, received := fun _ => rfl, sent := rfl }

omit [DecidableEq ι] in
/-- The section of `fut` on this socket, in terms of views. -/
theorem step_spec (s : Conn tcp ι) (fut : Future) (cx : W) (localPort : UInt16) :
    Future.Step s.self s.view fut (s.step fut cx localPort).1
      (tcp.view (s.step fut cx localPort).2) :=
  Future.step_spec ..

omit [DecidableEq ι] [tcp.Documented] in
theorem Inv.opening {s : Conn tcp ι} (h : s.Inv) {i : ι} (hst : s.stage = .opening i) :
    (∃ fut, s.calls i = some fut ∧ Opening s.view s.history fut) ∧
      ∀ j, j ≠ i → s.calls j = none := by
  have := h.holders
  rwa [hst] at this

omit [DecidableEq ι] [tcp.Documented] in
theorem Inv.handed {s : Conn tcp ι} (h : s.Inv) (hst : s.stage = .handed) :
    (∀ i fut, s.calls i = some fut → Using s.history fut) ∧
      Held s.view s.history := by
  have := h.holders
  rwa [hst] at this

omit [DecidableEq ι] [tcp.Documented] in
/-- A thread holds a future only while it opens the socket or on the handle. -/
theorem Inv.caller {s : Conn tcp ι} (h : s.Inv) {i : ι} {fut : Future}
    (hi : s.calls i = some fut) :
    (s.stage = .opening i ∧ Opening s.view s.history fut ∧
        ∀ j, j ≠ i → s.calls j = none) ∨
      (s.stage = .handed ∧ Using s.history fut ∧ Held s.view s.history) := by
  have hholders := h.holders
  cases hst : s.stage with
  | new =>
    rw [hst] at hholders
    rw [hholders.1 i] at hi
    cases hi
  | dropped =>
    rw [hst] at hholders
    rw [show s.calls i = none from hholders i] at hi
    cases hi
  | handed =>
    obtain ⟨husing, hheld⟩ := h.handed hst
    exact .inr ⟨rfl, husing i fut hi, hheld⟩
  | opening j =>
    -- nobody but `j` has a future, so `i` is `j`
    obtain ⟨⟨fut', hj, hopening⟩, hsolo⟩ := h.opening hst
    by_cases hij : i = j
    · subst hij
      rw [hi] at hj
      cases hj
      exact .inl ⟨rfl, hopening, hsolo⟩
    · rw [hsolo i hij] at hi
      cases hi

/-- A critical section of the opening thread keeps the invariant. -/
theorem Inv.polled_opening {s : Conn tcp ι} (h : s.Inv) {i : ι} {fut : Future}
    (hst : s.stage = .opening i) (hopening : Opening s.view s.history fut)
    (hsolo : ∀ j, j ≠ i → s.calls j = none) (cx : W) (localPort : UInt16) :
    (s.polled i fut cx localPort).Inv := by
  have hstep := s.step_spec fut cx localPort
  have hopened := hopening.step hstep
  refine ⟨h.sound.step hopening.fresh ?_ hstep, ?_⟩
  · rintro rfl
    exact hopening.elim
  have hcalls : ∀ next, Function.update s.calls i next i = next ∧
      ∀ j, j ≠ i → Function.update s.calls i next j = none := fun next =>
    ⟨Function.update_self .., fun j hj => by
      rw [Function.update_of_ne hj, hsolo j hj]⟩
  simp only [Conn.polled, hst]
  generalize (s.step fut cx localPort).1 = progress at hopened ⊢
  -- the thread goes on opening, hands the socket over, or drops it
  cases progress with
  | next fut' => exact ⟨⟨fut', (hcalls _).1, hopened⟩, (hcalls _).2⟩
  | pending => exact ⟨⟨fut, (hcalls _).1, hopened⟩, (hcalls _).2⟩
  | ready res =>
    have hnone : ∀ j, Function.update s.calls i none j = none := by
      intro j
      by_cases hj : j = i
      · rw [hj, Function.update_self]
      · exact (hcalls none).2 j hj
    cases res with
    | error e => exact hnone
    | ok out =>
      refine ⟨fun j fut' hj => ?_, hopened⟩
      exact absurd ((hnone j).symm.trans hj) nofun

/-- A critical section of a call on the handle keeps the invariant. -/
theorem Inv.polled_handed {s : Conn tcp ι} (h : s.Inv) {i : ι} {fut : Future}
    (hst : s.stage = .handed) (hi : s.calls i = some fut) (cx : W)
    (localPort : UInt16) : (s.polled i fut cx localPort).Inv := by
  have hstep := s.step_spec fut cx localPort
  obtain ⟨husing, hheld⟩ := h.handed hst
  have hfut := husing i fut hi
  obtain ⟨hheld', hkeep, hrest⟩ := hfut.step hheld hstep
  refine ⟨h.sound.step ?_ ?_ hstep, ?_⟩
  · intro hopens
    rw [hfut.not_opens] at hopens
    cases hopens
  · rintro rfl
    exact hfut.closeWait
  simp only [Conn.polled, hst, Stage.after]
  refine ⟨fun j fut' hj => ?_, hheld'⟩
  rcases update_cases (f := s.calls) (i := i) hj with ⟨-, hj⟩ | ⟨-, hj⟩
  · exact hrest fut' hj
  · exact hkeep fut' (husing j fut' hj)

omit [tcp.Documented] in
/-- Starting `connect` or `accept`. -/
theorem Inv.open_ {s : Conn tcp ι} (h : s.Inv) (hst : s.stage = .new) {fut : Future}
    (hfut : fut.opens = true) (i : ι) :
    Inv { s with stage := .opening i, calls := Function.update s.calls i (some fut) } := by
  have hholders := h.holders
  rw [hst] at hholders
  obtain ⟨hnone, hfresh⟩ := hholders
  refine ⟨h.sound, ⟨fut, Function.update_self .., ?_⟩, fun j hj => ?_⟩
  · cases fut <;> first | exact hfresh | cases hfut
  · exact (Function.update_of_ne hj ..).trans (hnone j)

omit [tcp.Documented] in
/-- Starting a call on the handle. -/
theorem Inv.call {s : Conn tcp ι} (h : s.Inv) (hst : s.stage = .handed) {fut : Future}
    (hfut : fut.uses = true) (i : ι) :
    Inv { s with calls := Function.update s.calls i (some fut) } := by
  obtain ⟨husing, hheld⟩ := h.handed hst
  refine ⟨h.sound, ?_⟩
  rw [hst]
  refine ⟨fun j fut' hj => ?_, hheld⟩
  rcases update_cases (f := s.calls) (i := i) hj with ⟨-, hj⟩ | ⟨-, hj⟩
  · cases hj
    exact .inl hfut
  · exact husing j fut' hj

omit [tcp.Documented] in
/-- Dropping a future. -/
theorem Inv.drop {s : Conn tcp ι} (h : s.Inv) {i : ι} {fut : Future}
    (hi : s.calls i = some fut) :
    Inv { s with
      stage := if s.stage = .opening i then .dropped else s.stage
      calls := Function.update s.calls i none } := by
  refine ⟨h.sound, ?_⟩
  rcases h.caller hi with ⟨hst, -, hsolo⟩ | ⟨hst, -, -⟩
  · simp only [hst, if_true]
    intro j
    show Function.update s.calls i none j = none
    by_cases hji : j = i
    · rw [hji, Function.update_self]
    · rw [Function.update_of_ne hji, hsolo j hji]
  · obtain ⟨husing, hheld⟩ := h.handed hst
    simp only [hst, reduceCtorEq, if_false]
    refine ⟨fun j fut' hj => ?_, hheld⟩
    rcases update_cases (f := s.calls) (i := i) hj with ⟨-, hj⟩ | ⟨-, hj⟩
    · cases hj
    · exact husing j fut' hj

omit [DecidableEq ι] in
/-- A segment keeps the invariant. -/
theorem Inv.segment {s : Conn tcp ι} (h : s.Inv) (g : Segment) :
    Inv { s with
      socket := tcp.process s.socket g, history := s.history.segment s.view g } := by
  have hview : tcp.view (tcp.process s.socket g) = s.view.process g :=
    SmolTcp.Documented.process_view ..
  have hholders := h.holders
  constructor
  · simp only [view, hview]
    exact h.sound.segment g
  · cases hst : s.stage with
    | new =>
      rw [hst] at hholders
      simp only [Holders, view, hview]
      exact ⟨hholders.1, hholders.2.segment g⟩
    | opening i =>
      obtain ⟨⟨fut, hi, hopening⟩, hsolo⟩ := h.opening hst
      simp only [Holders, view, hview]
      exact ⟨⟨fut, hi, hopening.segment g⟩, hsolo⟩
    | handed =>
      obtain ⟨husing, hheld⟩ := h.handed hst
      simp only [Holders, view, hview]
      exact ⟨husing, hheld.segment h.sound g⟩
    | dropped =>
      rw [hst] at hholders
      exact hholders

omit [DecidableEq ι] in
/-- The end of `TimeWait` keeps the invariant. -/
theorem Inv.expire {s : Conn tcp ι} (h : s.Inv) :
    Inv { s with
      socket := tcp.expire s.socket, history := s.history.expire s.view } := by
  have hview : tcp.view (tcp.expire s.socket) = s.view.expire :=
    SmolTcp.Documented.expire_view ..
  have hsound : Sound s.view.expire (s.history.expire s.view) := h.sound.expire
  refine ⟨by simpa only [view, hview] using hsound, ?_⟩
  by_cases hst : s.view.state = .timeWait
  case neg =>
    obtain ⟨hv, hk⟩ := expire_same s.history hst
    have hholders := h.holders
    simp only [view] at hview hv hk
    cases hstage : s.stage <;> rw [hstage] at hholders <;>
      simpa only [Holders, view, hview, hv, hk] using hholders
  case pos =>
    -- `TimeWait` is entered after a local close only, so there is a handle
    have hcloses : s.history.closes ≠ [] :=
      h.sound.shut (by rw [hst]; rfl) (by rw [hst]; nofun)
    cases hstage : s.stage with
    | new =>
      have hholders := h.holders
      rw [hstage] at hholders
      rw [hholders.2.history] at hcloses
      exact absurd rfl hcloses
    | opening i =>
      obtain ⟨⟨fut, -, hopening⟩, -⟩ := h.opening hstage
      exact absurd hopening.closes hcloses
    | handed => exact ⟨(h.handed hstage).1, fun _ => .inr hcloses⟩
    | dropped =>
      have hholders := h.holders
      rw [hstage] at hholders
      exact hholders

/-- Every step keeps the invariant. -/
theorem inv_next {s s' : Conn tcp ι} {l : Label W ι} (h : s.Inv)
    (hnext : s.next l = some s') : s'.Inv := by
  cases l with
  | «open» i fut =>
    obtain ⟨⟨hst, hfut⟩, hs'⟩ := Option.ite_none_right_eq_some.mp hnext
    cases hs'
    exact h.open_ hst hfut i
  | call i fut =>
    obtain ⟨⟨hst, hfut, -⟩, hs'⟩ := Option.ite_none_right_eq_some.mp hnext
    cases hs'
    exact h.call hst hfut i
  | poll i cx localPort =>
    obtain ⟨fut, hi, rfl⟩ := Option.map_eq_some_iff.mp hnext
    rcases h.caller hi with ⟨hst, hopening, hsolo⟩ | ⟨hst, -, -⟩
    · exact h.polled_opening hst hopening hsolo cx localPort
    · exact h.polled_handed hst hi cx localPort
  | drop i =>
    obtain ⟨fut, hi, rfl⟩ := Option.map_eq_some_iff.mp hnext
    exact h.drop hi
  | segment g =>
    cases hnext
    exact h.segment g
  | expire =>
    cases hnext
    exact h.expire

theorem Reachable.inv {s : Conn tcp ι} (h : (machine tcp ι).Reachable s) : s.Inv :=
  h.invariant (I := Inv) (by
    rintro _ ⟨self, rfl⟩
    exact inv_new self) fun _ _ _ => inv_next

end Conn

end RustyHermit.Net
