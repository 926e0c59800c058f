import RustyHermit.Executor.Progress
import RustyHermit.Net.Wakeup

/-!
# A call that blocks returns when its socket is ready

`sys_tcp_stream_connect`, `sys_tcp_listener_accept` and `sys_tcp_stream_close` run their futures
with `block_on`: the waker in the slot of the socket is the thread's own `ThreadNotify`. So between
the socket that becomes ready and the call that returns there are a slot, a flag and a blocked
task. The machine has all of them: one socket, any number of threads that poll its futures in
`block_on` or, for `read` and `write`, in `poll_on`, and the wakes that are on their way.

smoltcp 0.7.5 forgets a waker that another one displaces from its slot. So two calls that wait in
the same slot of a socket can miss their wakes, and what follows is about a task or a thread
whose waker is not displaced before it has been woken.

- `Sleepers.woken_of_ready`: the only future that sleeps through its readiness is a `write`.
- `returns_of_ready`: in every run that goes on for ever, with fair scheduling, no missed
  `sys_wakeup_task` and a `run_executor` that returns, a call in `block_on` whose future stays
  ready returns.
- `returns_of_final`: what `connect` and `close` wait for is final, so that they return when it
  has come.
-/

namespace RustyHermit.Net

open RustyHermit.Smoltcp RustyHermit.Executor

/-! ## Who sleeps through its readiness -/

/-- `read` and `write`, which `poll_on` drives. -/
def Future.spins : Future → Bool
  | .read _ | .write _ => true
  | _ => false

/-- How many sections can follow the next one. -/
def Future.sections : Future → Nat
  | .accept _ => 2
  | .connect _ _ | .acceptPoll | .close => 1
  | _ => 0

theorem Future.sections_next {self : Handle} {v v' : TcpView} {fut fut' : Future}
    (h : Future.Step self v fut (.next fut') v') : fut'.sections < fut.sections := by
  cases h <;> exact Nat.lt_succ_self _

namespace Sleepers

variable {W : Type} [DecidableEq W] {tcp : SmolTcp W} [tcp.Async] {ι : Type}
  {s s' : Sleepers tcp ι} {i : ι}

/-- A poll of another task that is `Pending` in the slot in which the waker of task `i` is, which
has not been woken. -/
def Displaces (s : Sleepers tcp ι) (i : ι) : Label W ι → Prop
  | .poll j cx _ =>
    j ≠ i ∧ ∃ fut fut' w n, s.calls j = some fut ∧ fut.Blocked s.view ∧
      s.calls i = some fut' ∧ fut'.slot = fut.slot ∧ s.pending i = some (w, n) ∧ w ≠ cx ∧
        ¬ n < s.woken w
  | _ => False

/-- As `Inv`, of task `i`, if it is not in a `write`. -/
def Watched (s : Sleepers tcp ι) (i : ι) : Prop :=
  ∀ w n, s.pending i = some (w, n) → ∃ fut, s.calls i = some fut ∧
    ((∀ buffer, fut ≠ .write buffer) → Waits s.socket fut w n)

/-- A future other than a `write` that is ready has been woken. -/
theorem Watched.woken (h : s.Watched i) {fut : Future} {w : W} {n : Nat}
    (hi : s.calls i = some fut) (hnot : ∀ buffer, fut ≠ .write buffer)
    (hpending : s.pending i = some (w, n)) (hready : ¬ fut.Blocked s.view) : n < s.woken w := by
  obtain ⟨fut', hi', hwaits⟩ := h w n hpending
  cases hi.symm.trans hi'
  exact (hwaits hnot).asleep.resolve_right hready

variable [DecidableEq ι]

theorem Watched.idle (h : s.Watched i) (j : ι) (fut : Option Future) : Watched { s with
    calls := Function.update s.calls j fut
    pending := Function.update s.pending j none } i := by
  intro w n hi
  rcases update_cases hi with ⟨-, hnone⟩ | ⟨hij, hold⟩
  · cases hnone
  · obtain ⟨fut', hfut', hwaits⟩ := h w n hold
    exact ⟨fut', (Function.update_of_ne hij ..).trans hfut', hwaits⟩

variable [tcp.Documented]

theorem Watched.polled (h : s.Watched i) {j : ι} {cx : W} {localPort : UInt16} {fut : Future}
    (hj : s.calls j = some fut) (hkept : ¬ s.Displaces i (.poll j cx localPort)) :
    (s.polled j fut cx localPort).Watched i := by
  intro w n hi
  rcases update_cases hi with ⟨rfl, hpoll⟩ | ⟨hij, hold⟩
  · split at hpoll <;> cases hpoll
    rename_i hpending
    replace hpending : (s.step fut cx localPort).1 = .pending := hpending
    refine ⟨fut, ?_, fun _ => Waits.pending hpending⟩
    show Function.update s.calls i (fut.rest (s.step fut cx localPort).1) i = _
    rw [Function.update_self, hpending]
    rfl
  · obtain ⟨fut', hfut', hwaits⟩ := h w n hold
    refine ⟨fut', (Function.update_of_ne hij ..).trans hfut', fun hnot => ?_⟩
    -- what a `read` drains is of no concern to it
    refine (hwaits hnot).section cx localPort (fun len buffer _ hwrite =>
      (hnot buffer hwrite).elim) fun hblocked hslot hne => ?_
    by_contra hlost
    refine hkept ⟨Ne.symm hij, fut, fut', w, n, hj, hblocked, hfut', hslot, hold, hne, ?_⟩
    exact fun hlt => hlost (Nat.lt_of_lt_of_le hlt (s.woken_mono fut cx localPort w))

/-- A step that does not displace its waker keeps it. -/
theorem Watched.next {l : Label W ι} (h : s.Watched i) (hkept : ¬ s.Displaces i l)
    (hnext : s.next l = some s') : s'.Watched i := by
  cases l with
  | start j fut =>
    obtain ⟨-, hs'⟩ := Option.ite_none_right_eq_some.mp hnext
    cases hs'
    exact h.idle j (some fut)
  | poll j cx localPort =>
    obtain ⟨fut, hj, rfl⟩ := Option.map_eq_some_iff.mp hnext
    exact h.polled hj hkept
  | drop j =>
    obtain ⟨fut, -, rfl⟩ := Option.map_eq_some_iff.mp hnext
    exact h.idle j none
  | segment g =>
    cases hnext
    intro w n hi
    obtain ⟨fut, hfut, hwaits⟩ := h w n hi
    exact ⟨fut, hfut, fun hnot => (hwaits hnot).process g⟩
  | expire =>
    cases hnext
    intro w n hi
    obtain ⟨fut, hfut, hwaits⟩ := h w n hi
    exact ⟨fut, hfut, fun hnot => (hwaits hnot).expire⟩

/-- **Only a `write` can sleep**: in every run in which no other task displaces its waker, a future
of another kind whose last poll was `Pending` and whose next one would not be has been woken in
between. -/
theorem woken_of_ready
    (h : (machine tcp ι).ReachableBy (fun s l => ¬ s.Displaces i l) s) {fut : Future} {w : W}
    {n : Nat} (hi : s.calls i = some fut) (hnot : ∀ buffer, fut ≠ .write buffer)
    (hpending : s.pending i = some (w, n)) {cx : W} {localPort : UInt16}
    (hready : (s.step fut cx localPort).1 ≠ .pending) : n < s.woken w := by
  have hwatched : s.Watched i := by
    refine h.invariant (I := fun s => s.Watched i) ?_ fun _ _ _ hwatched hkept hnext =>
      hwatched.next hkept hnext
    rintro _ ⟨self, rfl⟩ w n hi
    cases hi
  refine hwatched.woken hi hnot hpending fun hblocked => hready ?_
  exact (s.step_spec fut cx localPort).pending_iff.mpr hblocked

/-- As long as `i` waits, no other task polls. -/
def onlyPolls (i : ι) (s : Sleepers tcp ι) : Label W ι → Bool
  | .poll j _ _ => decide (j = i) || (s.pending i).isNone
  | _ => true

omit [tcp.Documented] in
theorem not_displaces {l : Label W ι} (h : onlyPolls i s l = true) : ¬ s.Displaces i l := by
  intro hdisplaces
  cases l with
  | poll j cx localPort =>
    obtain ⟨hj, fut, fut', w, n, -, -, -, -, hpending, -⟩ := hdisplaces
    simp only [onlyPolls, hpending, Option.isNone_some, Bool.or_false] at h
    exact hj (of_decide_eq_true h)
  | _ => exact hdisplaces

/-- A `read` that an octet has made ready, on a socket that wakes no displaced waker. -/
theorem woken_of_ready_read : ∃ s : Example false,
    (exampleMachine false).run newSocket octetArrives = some s ∧
      s.calls 1 = some (.read 16) ∧ s.pending 1 = some (1, 0) ∧ 0 < s.woken 1 := by
  have hinit : (exampleMachine false).ReachableBy (fun s l => ¬ s.Displaces 1 l) newSocket :=
    .init ⟨0, rfl⟩
  obtain ⟨s, hrun, hrun', hi, hpending, hready⟩ : ∃ s : Example false,
      (exampleMachine false).run newSocket octetArrives = some s ∧
        (exampleMachine false).runBy (onlyPolls 1) newSocket octetArrives = some s ∧
        s.calls 1 = some (.read 16) ∧ s.pending 1 = some (1, 0) ∧
        (s.step (.read 16) 1 0).1 = .ready (.ok (.bytes [7])) :=
    ⟨_, rfl, rfl, rfl, rfl, rfl⟩
  have hne : (s.step (.read 16) 1 0).1 ≠ .pending := by
    rw [hready]
    exact Progress.noConfusion
  have hs := hinit.runBy (fun _ _ => not_displaces) hrun'
  exact ⟨s, hrun, hi, hpending, woken_of_ready hs hi nofun hpending hne⟩

end Sleepers

/-! ## What is final -/

/-- What ends the wait of `connect` and of `close` for good. -/
def Future.Final (st : TcpState) : Future → Prop
  | .connectPoll => st ≠ .listen ∧ st ≠ .synSent ∧ st ≠ .synReceived
  | .closeWait => ended st = true
  | _ => False

theorem Future.Final.not_blocked {v : TcpView} {fut : Future} (h : fut.Final v.state) :
    ¬fut.Blocked v := by
  cases fut with
  | connectPoll => exact not_or.mpr h.2
  | closeWait => exact fun hblocked => Bool.noConfusion (h.symm.trans hblocked)
  | _ => exact h.elim

/-- What is final stays so, as far as the peer goes. -/
theorem Future.Final.process {st : TcpState} {fut : Future} (h : fut.Final st) (g : Segment) :
    fut.Final (st.process g) := by
  have hstep := TcpState.process_step st g
  generalize st.process g = st' at hstep
  cases fut with
  | connectPoll =>
    obtain ⟨hlisten, hsent, hreceived⟩ := h
    cases hstep with
    | same => exact ⟨hlisten, hsent, hreceived⟩
    | syn => exact absurd rfl hlisten
    | refused => exact absurd rfl hreceived
    | _ => exact ⟨TcpState.noConfusion, TcpState.noConfusion, TcpState.noConfusion⟩
  | closeWait =>
    cases hstep with
    | same => exact h
    | reset | finAcked | finCrossed | finBoth | finAfter | closingAcked | lastAcked => rfl
    | _ => cases h
  | _ => exact h.elim

theorem Future.Final.expire {v : TcpView} {fut : Future} (h : fut.Final v.state) :
    fut.Final v.expire.state := by
  unfold TcpView.expire
  split
  · cases fut with
    | connectPoll => exact ⟨TcpState.noConfusion, TcpState.noConfusion, TcpState.noConfusion⟩
    | closeWait => rfl
    | _ => exact h.elim
  · exact h

/-- A section of a call on the handle leaves an ended state. -/
theorem Future.Step.state_of_ended {self : Handle} {v v' : TcpView} {fut : Future}
    {progress : Progress} (h : Future.Step self v fut progress v') (hopens : fut.opens = false)
    (hended : ended v.state = true) : v'.state = v.state := by
  cases h with
  | connectStart | acceptStart => cases hopens
  | close hnot => exact Bool.noConfusion (hended.symm.trans hnot)
  | _ => rfl

/-- A section that leaves `fut` or what follows of it in its wait. -/
theorem Future.Step.state_of_final {self : Handle} {v v' : TcpView} {fut : Future}
    {progress : Progress} (h : Future.Step self v fut progress v') (hfinal : fut.Final v.state) :
    v' = v ∧ ∃ res, progress = .ready res := by
  cases h with
  | connectPending hstate =>
    exact absurd hstate (not_or.mpr hfinal.2)
  | closeWaiting hnot => exact Bool.noConfusion (hfinal.symm.trans hnot)
  | connectRefused | connected | closed => exact ⟨rfl, _, rfl⟩
  | _ => exact hfinal.elim

/-- What is final stays so, as far as the calls on the socket go. -/
theorem Conn.final_next {W ι : Type} [DecidableEq ι] {tcp : SmolTcp W} [tcp.Documented]
    {c c' : Conn tcp ι} {l : Conn.Label W ι} {i : ι} {fut : Future} (h : c.Inv)
    (hi : c.calls i = some fut) (hfinal : fut.Final c.view.state) (hnext : c.next l = some c') :
    fut.Final c'.view.state := by
  cases l with
  | «open» j fut' =>
    obtain ⟨⟨hstage, -⟩, hc'⟩ := Option.ite_none_right_eq_some.mp hnext
    cases hc'
    exact hfinal
  | call j fut' =>
    obtain ⟨-, hc'⟩ := Option.ite_none_right_eq_some.mp hnext
    cases hc'
    exact hfinal
  | drop j =>
    obtain ⟨fut', -, rfl⟩ := Option.map_eq_some_iff.mp hnext
    exact hfinal
  | segment g =>
    cases hnext
    show fut.Final (tcp.view (tcp.process c.socket g)).state
    rw [SmolTcp.Documented.process_view]
    exact hfinal.process g
  | expire =>
    cases hnext
    show fut.Final (tcp.view (tcp.expire c.socket)).state
    rw [SmolTcp.Documented.expire_view]
    exact hfinal.expire
  | poll j cx localPort =>
    obtain ⟨fut', hj, rfl⟩ := Option.map_eq_some_iff.mp hnext
    have hstep := c.step_spec fut' cx localPort
    show fut.Final (tcp.view (c.step fut' cx localPort).2).state
    by_cases hji : j = i
    · -- its own section, which is the last one
      cases (hji ▸ hj).symm.trans hi
      rw [(hstep.state_of_final hfinal).1]
      exact hfinal
    · rcases h.caller hi with ⟨-, -, hsolo⟩ | ⟨hhanded, husing, -⟩
      · cases hj.symm.trans (hsolo j hji)
      · have husing' := (h.handed hhanded).1 j fut' hj
        rcases husing with huses | ⟨rfl, -⟩
        · cases fut with
          | read | write | close => exact hfinal.elim
          | _ => cases huses
        · exact (hstep.state_of_ended husing'.not_opens hfinal).symm ▸ hfinal

/-! ## The machine -/

/-- A socket and the threads that wait for it. A waker is the thread that it wakes. -/
structure Blocking {ι : Type} (tcp : SmolTcp ι) where
  conn : Conn tcp ι
  /-- `block_on` and the `ThreadNotify` of each thread -/
  parks : ι → Park ι (Except Error Output)
  /-- how many wakers of the thread the socket has taken out of its slots, whose
  `wake_by_ref` is still to come -/
  owed : ι → Nat
  /-- ghost: of a future whose last poll was `Pending`, how often its waker had been woken
  by then -/
  pending : ι → Option Nat

namespace Blocking

/-- What can happen next. -/
inductive Label (ι : Type) where
  /-- thread `i` calls `block_on` with a future -/
  | block (i : ι) (fut : Future) (start : Instant) (timeout : Option Duration)
  /-- thread `i` calls `poll_on` with a future -/
  | spin (i : ι) (fut : Future)
  /-- thread `i` executes the next critical section of its future -/
  | poll (i : ι) (localPort : UInt16)
  /-- it executes another step of the loop of `block_on` -/
  | loop (i : ι) (a : BlockOn.Act (Except Error Output))
  /-- `iface.poll` hands a segment to the socket -/
  | segment (g : Segment)
  /-- `iface.poll` notices the end of `TimeWait` -/
  | expire
  /-- thread `j` enters `wake_by_ref` of the waker of thread `i` -/
  | wake (j i : ι)
  /-- and goes on to `sys_wakeup_task` -/
  | wakeupTask (j i : ι)
  /-- the time limit of `sys_block_current_task_with_timeout` is over -/
  | timer (i : ι)

variable {ι : Type} [DecidableEq ι] {tcp : SmolTcp ι} [tcp.Async]

/-- How often the waker of a thread has been woken by the socket. -/
def woken (s : Blocking tcp) (i : ι) : Nat :=
  (wakers s.conn.socket).woken i

/-- The socket has changed, and the wakers that it has taken out of its slots are to be woken. -/
def moved (s : Blocking tcp) (conn : Conn tcp ι) : Blocking tcp :=
  { s with
    conn
    owed := fun i => s.owed i + ((wakers conn.socket).woken i - s.woken i) }

/-- What the loop of a thread makes of a critical section of its future. -/
def after (park : Park ι (Except Error Output)) (progress : Progress) :
    Option (Park ι (Except Error Output)) :=
  match park.call.loc, progress with
  -- not in `block_on`: `poll_on` goes on in any case
  | .ret _, _ => some park
  | .poll, .next _ => some park
  | .poll, .pending => park.next (.thread (.poll .pending))
  | .poll, .ready res => park.next (.thread (.poll (.ready res)))
  | _, _ => none

def setPark (s : Blocking tcp) (i : ι) (park : Park ι (Except Error Output)) : Blocking tcp :=
  { s with parks := Function.update s.parks i park }

/-- Thread `i` has executed the critical section `fut`. -/
def polled (s : Blocking tcp) (i : ι) (fut : Future) (localPort : UInt16) : Blocking tcp :=
  { s.moved (s.conn.polled i fut i localPort) with
    pending := Function.update s.pending i (match (s.conn.step fut i localPort).1 with
      | .pending => some ((wakers (s.conn.step fut i localPort).2).woken i)
      | _ => none) }

/-- One step. -/
def next (s : Blocking tcp) : Label ι → Option (Blocking tcp)
  | .block i fut start timeout =>
    if fut.spins then none
    else (s.conn.next (if fut.opens then .open i fut else .call i fut)).bind fun conn =>
      ((s.parks i).next (.enter start timeout)).map fun park =>
        { s.setPark i park with conn, pending := Function.update s.pending i none }
  -- a thread in `block_on` has a future, and starts no other
  | .spin i fut =>
    if fut.spins then (s.conn.next (.call i fut)).map fun conn =>
      { s with conn, pending := Function.update s.pending i none }
    else none
  | .poll i localPort =>
    (s.conn.calls i).bind fun fut =>
      (after (s.parks i) (s.conn.step fut i localPort).1).map fun park =>
        (s.polled i fut localPort).setPark i park
  | .loop _ (.poll _) => none
  | .loop i a =>
    ((s.parks i).next (.thread a)).bind fun park =>
      match park.call.loc with
      -- the deadline is reached, and the future is dropped
      | .ret _ => (s.conn.next (.drop i)).map fun conn =>
        { s.setPark i park with conn, pending := Function.update s.pending i none }
      | _ => some (s.setPark i park)
  | .segment g => (s.conn.next (.segment g)).map s.moved
  | .expire => (s.conn.next .expire).map s.moved
  | .wake j i =>
    ((s.parks i).next (.wake j)).map fun park =>
      { s.setPark i park with owed := Function.update s.owed i (s.owed i - 1) }
  | .wakeupTask j i => ((s.parks i).next (.wakeupTask j)).map (s.setPark i)
  | .timer i => ((s.parks i).next .timer).map (s.setPark i)

/-- A new socket, and no thread in `block_on`; flags and wakers are as they were left. -/
structure Init (s : Blocking tcp) : Prop where
  conn : ∃ self, s.conn = .new self
  out : ∀ i, (∃ res, (s.parks i).call.loc = .ret res) ∧ (s.parks i).task = .runnable
  owed : ∀ i, s.owed i = 0
  pending : ∀ i, s.pending i = none

/-- All threads in any order. -/
def machine (tcp : SmolTcp ι) [tcp.Async] : Machine (Blocking tcp) (Label ι) where
  init := Init
  next := next

/-- Thread `i` is in `block_on`. -/
def Inside (s : Blocking tcp) (i : ι) : Prop :=
  ∀ res, (s.parks i).call.loc ≠ .ret res

/-- Thread `i` has a future that is blocked. -/
def BlockedOn (s : Blocking tcp) (i : ι) : Prop :=
  ∃ fut, s.conn.calls i = some fut ∧ fut.Blocked s.conn.view

/-! ## What a step can be -/

/-- One case per label, with what it needs. -/
inductive Moves (s : Blocking tcp) : Label ι → Blocking tcp → Prop where
  | block {i : ι} {fut : Future} {start : Instant} {timeout : Option Duration}
      {conn : Conn tcp ι} {park : Park ι (Except Error Output)} : fut.spins = false →
      s.conn.next (if fut.opens then .open i fut else .call i fut) = some conn →
      (s.parks i).next (.enter start timeout) = some park →
      Moves s (.block i fut start timeout)
        { s.setPark i park with conn, pending := Function.update s.pending i none }
  | spin {i : ι} {fut : Future} {conn : Conn tcp ι} : fut.spins = true →
      s.conn.next (.call i fut) = some conn →
      Moves s (.spin i fut) { s with conn, pending := Function.update s.pending i none }
  | poll {i : ι} {localPort : UInt16} {fut : Future} {park : Park ι (Except Error Output)} :
      s.conn.calls i = some fut → after (s.parks i) (s.conn.step fut i localPort).1 = some park →
      Moves s (.poll i localPort) ((s.polled i fut localPort).setPark i park)
  | expired {i : ι} {a : BlockOn.Act (Except Error Output)} {conn : Conn tcp ι}
      {park : Park ι (Except Error Output)} {res : Except Unit (Except Error Output)} :
      (∀ r, a ≠ .poll r) → (s.parks i).next (.thread a) = some park →
      park.call.loc = .ret res → s.conn.next (.drop i) = some conn →
      Moves s (.loop i a)
        { s.setPark i park with conn, pending := Function.update s.pending i none }
  | loop {i : ι} {a : BlockOn.Act (Except Error Output)}
      {park : Park ι (Except Error Output)} : (∀ r, a ≠ .poll r) →
      (s.parks i).next (.thread a) = some park → (∀ res, park.call.loc ≠ .ret res) →
      Moves s (.loop i a) (s.setPark i park)
  | segment {g : Segment} {conn : Conn tcp ι} : s.conn.next (.segment g) = some conn →
      Moves s (.segment g) (s.moved conn)
  | expire {conn : Conn tcp ι} : s.conn.next .expire = some conn → Moves s .expire (s.moved conn)
  | wake {j i : ι} {park : Park ι (Except Error Output)} :
      (s.parks i).next (.wake j) = some park →
      Moves s (.wake j i)
        { s.setPark i park with owed := Function.update s.owed i (s.owed i - 1) }
  | wakeupTask {j i : ι} {park : Park ι (Except Error Output)} :
      (s.parks i).next (.wakeupTask j) = some park → Moves s (.wakeupTask j i) (s.setPark i park)
  | timer {i : ι} {park : Park ι (Except Error Output)} :
      (s.parks i).next .timer = some park → Moves s (.timer i) (s.setPark i park)

/-- One case for each way in which a loop takes a section of its future. -/
inductive After (park : Park ι (Except Error Output)) :
    Progress → Park ι (Except Error Output) → Prop where
  | out {progress : Progress} {res : Except Unit (Except Error Output)} :
      park.call.loc = .ret res → After park progress park
  | goesOn {fut : Future} : park.call.loc = .poll → After park (.next fut) park
  | pending {park' : Park ι (Except Error Output)} : park.call.loc = .poll →
      park.next (.thread (.poll .pending)) = some park' → After park .pending park'
  | ready {res : Except Error Output} {park' : Park ι (Except Error Output)} :
      park.call.loc = .poll → park.next (.thread (.poll (.ready res))) = some park' →
      park'.call.loc = .ret (.ok res) → After park (.ready res) park'

variable {s s' : Blocking tcp} {l : Label ι}

/-- **Inversion** of `after`. -/
theorem after_cases {park park' : Park ι (Except Error Output)} {progress : Progress}
    (h : after park progress = some park') : After park progress park' := by
  unfold after at h
  split at h
  case h_1 hret =>
    cases h
    exact .out hret
  case h_2 hpoll =>
    cases h
    exact .goesOn hpoll
  case h_3 hpoll => exact .pending hpoll h
  case h_4 hpoll =>
    obtain ⟨loc, s₁, hstep, -, hpark'⟩ := Park.thread_cases h
    cases hstep
    exact .ready hpoll h (by rw [hpark'])
  case h_5 => cases h

/-- **Inversion** of `next`. -/
theorem next_cases (h : s.next l = some s') : s.Moves l s' := by
  cases l with
  | block i fut start timeout =>
    obtain ⟨hspins, hrest⟩ := Option.ite_none_left_eq_some.mp h
    obtain ⟨conn, hconn, hrest⟩ := Option.bind_eq_some_iff.mp hrest
    obtain ⟨park, hpark, rfl⟩ := Option.map_eq_some_iff.mp hrest
    exact .block (Bool.eq_false_iff.mpr hspins) hconn hpark
  | spin i fut =>
    obtain ⟨hspins, hrest⟩ := Option.ite_none_right_eq_some.mp h
    obtain ⟨conn, hconn, rfl⟩ := Option.map_eq_some_iff.mp hrest
    exact .spin hspins hconn
  | poll i localPort =>
    obtain ⟨fut, hfut, hrest⟩ := Option.bind_eq_some_iff.mp h
    obtain ⟨park, hpark, rfl⟩ := Option.map_eq_some_iff.mp hrest
    exact .poll hfut hpark
  | loop i a =>
    by_cases hpoll : ∃ r, a = .poll r
    · obtain ⟨r, rfl⟩ := hpoll
      cases h
    · have hnot : ∀ r, a ≠ .poll r := fun r ha => hpoll ⟨r, ha⟩
      rw [next] at h
      · obtain ⟨park, hpark, hrest⟩ := Option.bind_eq_some_iff.mp h
        split at hrest
        · rename_i res hret
          obtain ⟨conn, hconn, rfl⟩ := Option.map_eq_some_iff.mp hrest
          exact .expired hnot hpark hret hconn
        · rename_i hret
          cases hrest
          exact .loop hnot hpark hret
      · exact hnot
  | segment g =>
    cases h
    exact .segment rfl
  | expire =>
    cases h
    exact .expire rfl
  | wake j i =>
    obtain ⟨park, hpark, rfl⟩ := Option.map_eq_some_iff.mp h
    exact .wake hpark
  | wakeupTask j i =>
    obtain ⟨park, hpark, rfl⟩ := Option.map_eq_some_iff.mp h
    exact .wakeupTask hpark
  | timer i =>
    obtain ⟨park, hpark, rfl⟩ := Option.map_eq_some_iff.mp h
    exact .timer hpark

/-! ## What is seen of the parts -/

/-- The socket, as far as `Conn` goes. -/
theorem conn_next (h : s.Moves l s') :
    s'.conn = s.conn ∨ ∃ l', s.conn.next l' = some s'.conn := by
  cases h with
  | block _ hconn | spin _ hconn | expired _ _ _ hconn | segment hconn | expire hconn =>
    exact .inr ⟨_, hconn⟩
  | poll hfut => exact .inr ⟨.poll _ _ _, Option.map_eq_some_iff.mpr ⟨_, hfut, rfl⟩⟩
  | loop | wake | wakeupTask | timer => exact .inl rfl

/-- The step of the loop of thread `i`, or of somebody with its notifier. -/
def parkLabel (i : ι) (s : Blocking tcp) :
    Label ι → Option (Park.Label ι (Except Error Output))
  | .block j _ start timeout => if j = i then some (.enter start timeout) else none
  | .poll j localPort =>
    if j = i then
      match (s.parks i).call.loc,
        (s.conn.calls i).map fun fut => (s.conn.step fut i localPort).1 with
      | .poll, some .pending => some (.thread (.poll .pending))
      | .poll, some (.ready res) => some (.thread (.poll (.ready res)))
      | _, _ => none
    else none
  | .loop j a => if j = i then some (.thread a) else none
  | .wake j k => if k = i then some (.wake j) else none
  | .wakeupTask j k => if k = i then some (.wakeupTask j) else none
  | .timer k => if k = i then some .timer else none
  | .spin _ _ | .segment _ | .expire => none

omit [tcp.Async] in
theorem setPark_self (i : ι) (park : Park ι (Except Error Output)) :
    (s.setPark i park).parks i = park :=
  Function.update_self ..

omit [tcp.Async] in
theorem setPark_of_ne {i j : ι} (h : i ≠ j) (park : Park ι (Except Error Output)) :
    (s.setPark j park).parks i = s.parks i :=
  Function.update_of_ne h ..

/-- A thread and its notifier, as far as `Park` goes. -/
theorem park_wait (h : s.Moves l s') (i : ι) :
    (Park.ongoing ι (Except Error Output)).wait (s.parks i) (s.parkLabel i l)
      = some (s'.parks i) := by
  -- the step of another thread leaves it alone
  have hother : ∀ {j : ι} {park : Park ι (Except Error Output)}
      {l : Park.Label ι (Except Error Output)}, (s.parks j).next l = some park →
      (Park.ongoing ι (Except Error Output)).wait (s.parks i) (if j = i then some l else none)
        = some ((s.setPark j park).parks i) := by
    intro j park l hpark
    by_cases hji : j = i
    · subst hji
      rw [if_pos rfl, setPark_self]
      exact hpark
    · rw [if_neg hji, setPark_of_ne (Ne.symm hji)]
      rfl
  cases h with
  | block _ _ hpark | expired _ hpark | loop _ hpark | wake hpark | wakeupTask hpark
  | timer hpark => exact hother hpark
  | spin | segment | expire => rfl
  | @poll j localPort fut park hfut hafter =>
    by_cases hji : j = i
    · subst hji
      rw [parkLabel, if_pos rfl, hfut, Option.map_some, setPark_self]
      have hcases := after_cases hafter
      generalize (s.conn.step fut j localPort).1 = progress at hcases
      cases hcases with
      | out hloc | goesOn hloc =>
        rw [hloc]
        rfl
      | pending hloc hnext | ready hloc hnext =>
        rw [hloc]
        exact hnext
    · rw [parkLabel, if_neg hji, setPark_of_ne (Ne.symm hji)]
      rfl

omit [tcp.Async] in
theorem label_of_wakeupTask {i j : ι} (h : s.parkLabel i l = some (.wakeupTask j)) :
    l = .wakeupTask j i := by
  cases l with
  | poll k localPort =>
    simp only [parkLabel] at h
    split at h
    · split at h <;> cases h
    · cases h
  | spin | segment | expire => cases h
  | wakeupTask k k' =>
    obtain ⟨rfl, hlabel⟩ := Option.ite_none_right_eq_some.mp h
    cases hlabel
    rfl
  | _ =>
    obtain ⟨-, hlabel⟩ := Option.ite_none_right_eq_some.mp h
    cases hlabel

/-- The futures and their wakers, as far as `Sleepers` goes. -/
def sleepers (s : Blocking tcp) : Sleepers tcp ι where
  self := s.conn.self
  socket := s.conn.socket
  calls := s.conn.calls
  pending := fun i => (s.pending i).map (Prod.mk i)

omit [tcp.Async] in
theorem pending_update (pending : ι → Option Nat) (i : ι) (n : Option Nat) :
    (fun j => (Function.update pending i n j).map (Prod.mk j)) =
      Function.update (fun j => (pending j).map (Prod.mk j)) i (n.map (Prod.mk i)) :=
  funext fun j => Function.apply_update (fun j => Option.map (Prod.mk j)) pending i n j

omit [tcp.Async] in
/-- What the start of a future does to the socket. -/
theorem start_conn {conn : Conn tcp ι} {i : ι} {fut : Future} {c : Conn tcp ι} (h : conn.Inv)
    (hnext : conn.next (if fut.opens then .open i fut else .call i fut) = some c) :
    (fut.opens || fut.uses) = true ∧ (conn.calls i).isNone = true ∧ c.self = conn.self ∧
      c.socket = conn.socket ∧ c.calls = Function.update conn.calls i (some fut) := by
  split at hnext
  · obtain ⟨⟨hstage, hopens⟩, hc⟩ := Option.ite_none_right_eq_some.mp hnext
    cases hc
    have hholders := h.holders
    rw [hstage] at hholders
    exact ⟨by rw [hopens, Bool.true_or], by rw [hholders.1 i]; rfl, rfl, rfl, rfl⟩
  · obtain ⟨⟨-, huses, hnone⟩, hc⟩ := Option.ite_none_right_eq_some.mp hnext
    cases hc
    exact ⟨by rw [huses, Bool.or_true], hnone, rfl, rfl, rfl⟩

/-- A poll of another thread, `Pending`, that displaces the waker of thread `i`, which has not
been woken. -/
def Displaces (s : Blocking tcp) (i : ι) : Label ι → Prop
  | .poll j localPort => s.sleepers.Displaces i (.poll j j localPort)
  | _ => False

/-- The futures and their wakers do the same, and displace no other waker. -/
theorem sleepers_next (hinv : s.conn.Inv) (h : s.Moves l s') :
    s'.sleepers = s.sleepers ∨ ∃ l', s.sleepers.next l' = some s'.sleepers ∧
      ∀ i, s.sleepers.Displaces i l' → s.Displaces i l := by
  have hstart : ∀ {i : ι} {fut : Future} {c : Conn tcp ι} {t : Blocking tcp},
      s.conn.next (if fut.opens then .open i fut else .call i fut) = some c → t.conn = c →
      t.pending = Function.update s.pending i none →
      s.sleepers.next (.start i fut) = some t.sleepers := by
    rintro i fut c t hnext rfl hpending
    obtain ⟨hmay, hnone, hself, hsocket, hcalls⟩ := start_conn hinv hnext
    rw [Sleepers.next, if_pos ⟨hmay, hnone⟩, sleepers, sleepers, hself, hsocket, hcalls, hpending,
      pending_update]
    rfl
  cases h with
  | @block i fut start timeout conn park _ hconn =>
    exact .inr ⟨.start i fut, hstart hconn rfl rfl, fun _ => id⟩
  | @spin i fut conn hspins hconn =>
    refine .inr ⟨.start i fut, hstart (c := conn) ?_ rfl rfl, fun _ => id⟩
    rw [if_neg]
    · exact hconn
    · intro hopens
      cases fut with
      | read | write => cases hopens
      | _ => cases hspins
  | @poll i localPort fut park hfut =>
    refine .inr ⟨.poll i i localPort, Option.map_eq_some_iff.mpr ⟨fut, hfut, ?_⟩, fun _ => id⟩
    refine congrArg (Sleepers.mk _ _ _) ?_
    refine Eq.trans ?_ (pending_update ..).symm
    refine congrArg (Function.update _ i) ?_
    show _ = Option.map (Prod.mk i) (match (s.conn.step fut i localPort).1 with
      | .pending => some ((wakers (s.conn.step fut i localPort).2).woken i)
      | _ => none)
    show (match (s.conn.step fut i localPort).1 with
      | .pending => some (i, (wakers (s.conn.step fut i localPort).2).woken i)
      | _ => none) = _
    cases (s.conn.step fut i localPort).1 <;> rfl
  | @expired i a conn park res hnot hpark hret hconn =>
    refine .inr ⟨.drop i, ?_, fun _ => id⟩
    obtain ⟨fut, hfut, rfl⟩ := Option.map_eq_some_iff.mp hconn
    refine Option.map_eq_some_iff.mpr ⟨fut, hfut, ?_⟩
    rw [sleepers, sleepers, pending_update]
    rfl
  | @segment g conn hconn =>
    cases hconn
    exact .inr ⟨.segment g, rfl, fun _ => id⟩
  | expire hconn =>
    cases hconn
    exact .inr ⟨.expire, rfl, fun _ => id⟩
  | loop | wake | wakeupTask | timer => exact .inl rfl

/-- A step of thread `i` in its call. -/
def Label.own (i : ι) : Label ι → Bool
  | .block j .. | .spin j _ | .poll j _ | .loop j _ => decide (j = i)
  | _ => false

/-- The steps of others leave the call of thread `i` where it is, and keep a wake. -/
theorem other_moves (h : s.Moves l s') {i : ι} (hown : l.own i = false) :
    s'.conn.calls i = s.conn.calls i ∧ s'.pending i = s.pending i ∧
      (s'.parks i).call = (s.parks i).call ∧
        ((s.parks i).woken = true → (s'.parks i).woken = true) := by
  -- a step at the notifier of a thread
  have hpark : ∀ {j : ι} {park : Park ι (Except Error Output)}
      {l : Park.Label ι (Except Error Output)}, (s.parks j).next l = some park →
      (j = i → (∀ a, l ≠ .thread a) ∧ ∀ start timeout, l ≠ .enter start timeout) →
      ((s.setPark j park).parks i).call = (s.parks i).call ∧
        ((s.parks i).woken = true → ((s.setPark j park).parks i).woken = true) := by
    intro j park l hnext hnot
    by_cases hji : j = i
    · subst hji
      obtain ⟨hthread, henter⟩ := hnot rfl
      rw [setPark_self]
      obtain ⟨hcall, hwoken, -⟩ := Park.notifier_cases hnext hthread henter
      exact ⟨hcall, hwoken⟩
    · rw [setPark_of_ne (Ne.symm hji)]
      exact ⟨rfl, id⟩
  have hne : ∀ {j : ι}, decide (j = i) = false → i ≠ j := fun h =>
    Ne.symm (of_decide_eq_false h)
  cases h with
  | @block j fut start timeout conn park _ hconn hnext =>
    have hij := hne hown
    have hcalls : conn.calls i = s.conn.calls i := by
      split at hconn <;>
      · obtain ⟨-, hc⟩ := Option.ite_none_right_eq_some.mp hconn
        cases hc
        exact Function.update_of_ne hij ..
    exact ⟨hcalls, Function.update_of_ne hij .., hpark hnext fun hji => absurd hji.symm hij⟩
  | @spin j fut conn _ hconn =>
    have hij := hne hown
    obtain ⟨-, hc⟩ := Option.ite_none_right_eq_some.mp hconn
    cases hc
    exact ⟨Function.update_of_ne hij .., Function.update_of_ne hij .., rfl, id⟩
  | @poll j localPort fut park =>
    have hij := hne hown
    refine ⟨Function.update_of_ne hij .., Function.update_of_ne hij .., ?_⟩
    rw [setPark_of_ne hij]
    exact ⟨rfl, id⟩
  | @expired j a conn park res _ hnext _ hconn =>
    have hij := hne hown
    obtain ⟨fut, -, rfl⟩ := Option.map_eq_some_iff.mp hconn
    exact ⟨Function.update_of_ne hij .., Function.update_of_ne hij ..,
      hpark hnext fun hji => absurd hji.symm hij⟩
  | loop _ hnext => exact ⟨rfl, rfl, hpark hnext fun hji => absurd hji.symm (hne hown)⟩
  | segment hconn | expire hconn =>
    cases hconn
    exact ⟨rfl, rfl, rfl, id⟩
  | wake hnext | wakeupTask hnext | timer hnext =>
    exact ⟨rfl, rfl, hpark hnext fun _ => ⟨nofun, nofun⟩⟩

/-- In `block_on` a section is executed at the poll. -/
theorem loc_of_poll {i : ι} {localPort : UInt16} (h : s.Moves (.poll i localPort) s')
    (hin : s.Inside i) : (s.parks i).call.loc = .poll := by
  cases h with
  | @poll _ _ fut park _ hafter =>
    have hcases := after_cases hafter
    generalize (s.conn.step fut i localPort).1 = progress at hcases
    cases hcases with
    | out hret => exact absurd hret (hin _)
    | goesOn hpoll | pending hpoll | ready hpoll => exact hpoll

/-- Each waker that is taken out of a slot is owed a `wake_by_ref`. -/
theorem owed_moves (h : s.Moves l s') (i : ι) :
    ((∃ j, l = .wake j i) ∧ (s'.parks i).woken = true) ∨
      s'.owed i = s.owed i + (s'.woken i - s.woken i) := by
  have hsame : ∀ {t : Blocking tcp}, t.owed i = s.owed i → t.conn.socket = s.conn.socket →
      t.owed i = s.owed i + (t.woken i - s.woken i) := by
    intro t howed hsocket
    rw [howed, woken, woken, hsocket, Nat.sub_self, Nat.add_zero]
  cases h with
  | @block j fut start timeout conn park _ hconn =>
    refine .inr (hsame rfl ?_)
    split at hconn <;>
    · obtain ⟨-, hc⟩ := Option.ite_none_right_eq_some.mp hconn
      cases hc
      rfl
  | spin _ hconn =>
    obtain ⟨-, hc⟩ := Option.ite_none_right_eq_some.mp hconn
    cases hc
    exact .inr (hsame rfl rfl)
  | expired _ _ _ hconn =>
    obtain ⟨fut, -, rfl⟩ := Option.map_eq_some_iff.mp hconn
    exact .inr (hsame rfl rfl)
  | poll | segment | expire => exact .inr rfl
  | @wake j k park hnext =>
    by_cases hik : i = k
    · subst hik
      refine .inl ⟨⟨j, rfl⟩, ?_⟩
      obtain ⟨-, hpark⟩ := Option.ite_none_left_eq_some.mp hnext
      cases hpark
      show ((s.setPark i _).parks i).woken = true
      rw [setPark_self]
    · exact .inr (hsame (Function.update_of_ne hik ..) rfl)
  | loop | wakeupTask | timer => exact .inr (hsame rfl rfl)

/-! ## The invariant -/

/-- No `sys_wakeup_task` falls into the window of a thread that parks. -/
def ok (s : Blocking tcp) : Label ι → Prop
  | .wakeupTask j i => ¬(s.parks i).Missed (.wakeupTask j)
  | _ => True

/-- The invariant of the threads. -/
structure Inv (s : Blocking tcp) : Prop where
  conn : s.conn.Inv
  park : ∀ i, (s.parks i).Inv
  /-- a thread in `block_on` has a future, and none that `poll_on` drives -/
  calls : ∀ i, s.Inside i → ∃ fut, s.conn.calls i = some fut ∧ fut.spins = false
  /-- it is at its poll if its last one was not `Pending` -/
  first : ∀ i, s.Inside i → s.pending i = none → (s.parks i).call.loc = .poll
  /-- if its waker has been woken since, it is owed the wake, or has got it -/
  woken : ∀ i n, s.pending i = some n → n < s.woken i → 0 < s.owed i ∨ (s.parks i).woken = true

omit [tcp.Async] [DecidableEq ι] in
/-- A future of `block_on` goes on as one. -/
theorem spins_of_next {self : Handle} {v v' : TcpView} {fut fut' : Future}
    (h : Future.Step self v fut (.next fut') v') : fut'.spins = false := by
  cases h <;> rfl

/-- What a step of its own leaves of a thread. -/
structure OwnInv (s : Blocking tcp) (i : ι) : Prop where
  calls : s.Inside i → ∃ fut, s.conn.calls i = some fut ∧ fut.spins = false
  first : s.Inside i → s.pending i = none → (s.parks i).call.loc = .poll
  woken : ∀ n, s.pending i = some n → n < s.woken i → 0 < s.owed i ∨ (s.parks i).woken = true

theorem Inv.own (h : s.Inv) (i : ι) : s.OwnInv i :=
  ⟨h.calls i, h.first i, h.woken i⟩

theorem OwnInv.of_other {i : ι} (h : s.OwnInv i) (hmoves : s.Moves l s')
    (hown : l.own i = false) : s'.OwnInv i := by
  obtain ⟨hcalls, hpending, hcall, hkept⟩ := other_moves hmoves hown
  have hinside : s'.Inside i → s.Inside i := fun hin res hret => hin res (hcall.symm ▸ hret)
  constructor
  · exact fun hin => hcalls.symm ▸ h.calls (hinside hin)
  · exact fun hin hnone => hcall.symm ▸ h.first (hinside hin) (hpending ▸ hnone)
  · intro n hn hlt
    rcases owed_moves hmoves i with ⟨-, hwoken⟩ | howed
    · exact .inr hwoken
    · by_cases hbefore : n < s.woken i
      · exact (h.woken n (hpending ▸ hn) hbefore).imp (fun hpos => by omega) hkept
      · exact .inl (by omega)

/-- A thread that is not in `block_on`, and has not been `Pending`. -/
theorem OwnInv.of_ret {i : ι} {res : Except Unit (Except Error Output)}
    (hret : (s.parks i).call.loc = .ret res) (hnone : s.pending i = none) : s.OwnInv i where
  calls hin := absurd hret (hin res)
  first hin := absurd hret (hin res)
  woken n hn := by cases hnone.symm.trans hn

variable [tcp.Documented]

theorem OwnInv.of_poll {i : ι} {localPort : UInt16} {fut : Future}
    {park : Park ι (Except Error Output)} (h : s.OwnInv i) (hfut : s.conn.calls i = some fut)
    (hafter : after (s.parks i) (s.conn.step fut i localPort).1 = some park) :
    ((s.polled i fut localPort).setPark i park).OwnInv i := by
  have hstep := s.conn.step_spec fut i localPort
  have hrest : ((s.polled i fut localPort).setPark i park).conn.calls i
      = fut.rest (s.conn.step fut i localPort).1 := Function.update_self ..
  have hpending : ((s.polled i fut localPort).setPark i park).pending i
      = match (s.conn.step fut i localPort).1 with
        | .pending => some (((s.polled i fut localPort).setPark i park).woken i)
        | _ => none := Function.update_self ..
  have hpark := setPark_self (s := s.polled i fut localPort) i park
  have hcases := after_cases hafter
  generalize (s.conn.step fut i localPort).1 = progress at hstep hrest hpending hcases
  cases hcases with
  | out hret =>
    refine ⟨fun hin => absurd (hpark ▸ hret) (hin _), fun hin => absurd (hpark ▸ hret) (hin _), ?_⟩
    intro n hn hlt
    rw [hpending] at hn
    split at hn <;> cases hn
    exact absurd hlt (Nat.lt_irrefl _)
  | goesOn hpoll =>
    refine ⟨fun _ => ⟨_, hrest, spins_of_next hstep⟩, fun _ _ => hpark.symm ▸ hpoll, ?_⟩
    intro n hn
    cases hpending.symm.trans hn
  | pending hpoll =>
    refine ⟨fun _ => ?_, fun _ hnone => (by cases hpending.symm.trans hnone), ?_⟩
    · obtain ⟨fut', hfut', hspins⟩ := h.calls fun res hret => by cases hpoll.symm.trans hret
      exact ⟨fut', hrest.trans (hfut.symm.trans hfut'), hspins⟩
    · intro n hn hlt
      cases hpending.symm.trans hn
      exact absurd hlt (Nat.lt_irrefl _)
  | ready _ _ hret => exact .of_ret ((congrArg (·.call.loc) hpark).trans hret) hpending

/-- The invariant of one thread is kept. -/
theorem OwnInv.next (h : s.Inv) (hmoves : s.Moves l s') (i : ι) : s'.OwnInv i := by
  cases hown : l.own i with
  | false => exact (h.own i).of_other hmoves hown
  | true =>
    cases hmoves with
    | segment | expire | wake | wakeupTask | timer => cases hown
    | @block j fut start timeout conn park hspins hconn hnext =>
      obtain rfl : j = i := of_decide_eq_true hown
      have hcalls := (start_conn h.conn hconn).2.2.2.2
      have hpark := setPark_self (s := s) j park
      have hloc := (Park.enter_cases hnext).2
      constructor
      · exact fun _ => ⟨fut, hcalls.symm ▸ Function.update_self .., hspins⟩
      · exact fun _ _ => (congrArg (·.call.loc) hpark).trans hloc
      · intro n hn
        cases (Function.update_self ..).symm.trans hn
    | @spin j fut conn hspins hconn =>
      obtain rfl : j = i := of_decide_eq_true hown
      obtain ⟨⟨-, -, hnone⟩, -⟩ := Option.ite_none_right_eq_some.mp hconn
      -- it had no future, so it was not in `block_on`
      have hout : ¬s.Inside j := by
        intro hin
        obtain ⟨fut', hfut', -⟩ := h.calls j hin
        rw [hfut'] at hnone
        cases hnone
      constructor
      · exact fun hin => absurd hin hout
      · exact fun hin => absurd hin hout
      · intro n hn
        cases (Function.update_self ..).symm.trans hn
    | @poll j localPort fut park hfut hafter =>
      obtain rfl : j = i := of_decide_eq_true hown
      exact (h.own j).of_poll hfut hafter
    | @expired j a conn park res _ _ hret _ =>
      obtain rfl : j = i := of_decide_eq_true hown
      exact .of_ret ((congrArg (·.call.loc) (setPark_self (s := s) j park)).trans hret)
        (Function.update_self ..)
    | @loop j a park hnot hnext hin' =>
      obtain rfl : j = i := of_decide_eq_true hown
      obtain ⟨loc', s₁, hstep, heffect, rfl⟩ := Park.thread_cases hnext
      have hin : s.Inside j := by
        intro res hret
        cases hstep with
        | _ hl => cases hl.symm.trans hret
      constructor
      · exact fun _ => h.calls j hin
      · intro _ hnone
        have hloc := h.first j hin hnone
        cases hstep with
        | ready | pending => exact absurd rfl (hnot _)
        | _ hl => cases hl.symm.trans hloc
      · intro n hn hlt
        refine (h.woken j n hn hlt).imp id fun hwoken => ?_
        rw [setPark_self]
        exact (Park.woken_of_effect heffect hnot).trans hwoken

/-- Every step that is not missed keeps the invariant. -/
theorem Inv.next (h : s.Inv) (hok : s.ok l) (hnext : s.next l = some s') : s'.Inv := by
  have hmoves := next_cases hnext
  have hown := OwnInv.next h hmoves
  refine ⟨?_, fun i => ?_, fun i => (hown i).calls, fun i => (hown i).first,
    fun i => (hown i).woken⟩
  · rcases conn_next hmoves with hsame | ⟨l', hconn⟩
    · exact hsame ▸ h.conn
    · exact Conn.inv_next h.conn hconn
  · have hwait := park_wait hmoves i
    cases hlabel : s.parkLabel i l with
    | none =>
      rw [hlabel] at hwait
      exact Option.some.inj hwait ▸ h.park i
    | some l' =>
      rw [hlabel] at hwait
      refine Park.inv_next (h.park i) (fun hmissed => ?_) hwait
      cases l' with
      | wakeupTask j =>
        obtain rfl := label_of_wakeupTask hlabel
        exact hok hmissed
      | _ => exact hmissed

theorem inv_init (h : s.Init) : s.Inv := by
  have hown : ∀ i, s.OwnInv i := fun i =>
    .of_ret (h.out i).1.choose_spec (h.pending i)
  refine ⟨?_, fun i => ?_, fun i => (hown i).calls, fun i => (hown i).first,
    fun i => (hown i).woken⟩
  · obtain ⟨self, hself⟩ := h.conn
    exact hself ▸ Conn.inv_new self
  · obtain ⟨⟨res, hret⟩, htask⟩ := h.out i
    refine .of_runnable htask (fun hkeeps => ?_) fun hloc => ?_
    · rw [hret] at hkeeps
      cases hkeeps
    · cases hret.symm.trans hloc

/-- A thread whose waker is not displaced. -/
theorem watched_next {i : ι} (h : s.sleepers.Watched i) (hinv : s.conn.Inv)
    (hkept : ¬ s.Displaces i l) (hnext : s.next l = some s') : s'.sleepers.Watched i := by
  rcases sleepers_next hinv (next_cases hnext) with hsame | ⟨l', hsleepers, hdisplaces⟩
  · exact hsame ▸ h
  · exact h.next (fun hl => hkept (hdisplaces i hl)) hsleepers

omit [tcp.Documented] in
theorem watched_init (h : s.Init) (i : ι) : s.sleepers.Watched i := by
  intro w n hi
  obtain ⟨n', hn', -⟩ := Option.map_eq_some_iff.mp hi
  cases (h.pending i).symm.trans hn'

/-! ## Runs that go on for ever -/

section Paths

variable (p : (machine tcp).Path)

omit [tcp.Documented] in
/-- Thread `i` executes a step of its call. -/
def Acts (i : ι) (n : Nat) : Prop :=
  ∃ l, p.label n = some l ∧ l.own i = true

omit [tcp.Documented] in
/-- **Fairness of the scheduler and the kernel**, and no missed `sys_wakeup_task`. -/
structure Fair : Prop where
  ok : ∀ n l, p.label n = some l → (p.state n).ok l
  /-- a thread in `block_on` that is runnable gets to run -/
  goesOn : ∀ i, LeadsTo (fun n => (p.state n).Inside i ∧
    ((p.state n).parks i).call.loc ≠ .runExecutor ∧
      ((p.state n).parks i).task = .runnable) (Acts p i)
  /-- `run_executor` returns, whatever tasks it polls -/
  leavesExecutor : ∀ i, LeadsTo (fun n => ((p.state n).parks i).call.loc = .runExecutor ∧
    ((p.state n).parks i).task = .runnable) (Acts p i)
  /-- a waker that has been taken out of its slot is woken -/
  wakes : ∀ i, LeadsTo (fun n => 0 < (p.state n).owed i) fun n =>
    ∃ j, p.label n = some (.wake j i)
  /-- who has set a flag goes on to `sys_wakeup_task` -/
  wakesUp : ∀ j i, LeadsTo (fun n => ((p.state n).parks i).waking j = true) fun n =>
    p.label n = some (.wakeupTask j i)
  timer : ∀ i, LeadsTo (fun n => ((p.state n).parks i).task = .blockedWithTimeout) fun n =>
    ((p.state n).parks i).task ≠ .blockedWithTimeout

omit [tcp.Documented] in
/-- No other thread displaces the waker of thread `i` from its slot before it has been woken.
smoltcp 0.7.5 forgets a waker that is displaced, and so `i` would not be woken. -/
def Undisplaced (i : ι) : Prop :=
  ∀ n l, p.label n = some l → ¬ (p.state n).Displaces i l

/-- What the run is for one thread and its notifier. -/
def parkPath (i : ι) : (Park.ongoing ι (Except Error Output)).Path :=
  p.map (fun s => s.parks i) (parkLabel i) (fun _ hinit => (inv_init hinit).park i)
    fun _ _ _ _ hnext => park_wait (next_cases hnext) i

variable {p}

theorem Fair.inv (h : Fair p) (n : Nat) : (p.state n).Inv :=
  (p.reachableBy h.ok n).invariant (I := Inv) (fun _ => inv_init)
    fun _ _ _ hinv hok hnext => hinv.next hok hnext

theorem Fair.watched (h : Fair p) {i : ι} (hkept : Undisplaced p i) (n : Nat) :
    (p.state n).sleepers.Watched i := by
  induction n with
  | zero => exact watched_init p.init i
  | succ n ih =>
    cases hlabel : p.label n with
    | none => exact (p.state_of_label hlabel).symm ▸ ih
    | some l =>
      exact watched_next ih (h.inv n).conn (hkept n l hlabel) (p.next_of_label hlabel)

omit [tcp.Documented] in
theorem moves_of_label {n : Nat} {l : Label ι} (h : p.label n = some l) :
    (p.state n).Moves l (p.state (n + 1)) :=
  next_cases (p.next_of_label h)

theorem parkPath_label {i : ι} {n : Nat} {l : Label ι} (h : p.label n = some l) :
    (parkPath p i).label n = (p.state n).parkLabel i l := by
  show (p.label n).bind _ = _
  rw [h]
  rfl

/-- In `block_on` a thread polls, or goes on in its loop. -/
theorem Fair.acts_cases (h : Fair p) {i : ι} {n : Nat} (hin : (p.state n).Inside i)
    (hacts : Acts p i n) :
    (∃ localPort, p.label n = some (.poll i localPort)) ∨ ∃ a, p.label n = some (.loop i a) := by
  obtain ⟨l, hlabel, hown⟩ := hacts
  have hmoves := moves_of_label hlabel
  generalize p.state (n + 1) = s' at hmoves
  cases hmoves with
  | segment | expire | wake | wakeupTask | timer => cases hown
  | @block j fut start timeout conn park _ _ hnext =>
    obtain rfl : j = i := of_decide_eq_true hown
    obtain ⟨⟨res, hret⟩, -⟩ := Park.enter_cases hnext
    exact absurd hret (hin res)
  | @spin j fut conn _ hconn =>
    obtain rfl : j = i := of_decide_eq_true hown
    obtain ⟨⟨-, -, hnone⟩, -⟩ := Option.ite_none_right_eq_some.mp hconn
    obtain ⟨fut', hfut', -⟩ := (h.inv n).calls j hin
    rw [hfut'] at hnone
    cases hnone
  | @poll j localPort =>
    obtain rfl : j = i := of_decide_eq_true hown
    exact .inl ⟨localPort, hlabel⟩
  | @expired j a | @loop j a =>
    obtain rfl : j = i := of_decide_eq_true hown
    exact .inr ⟨a, hlabel⟩

omit [tcp.Documented] in
/-- A thread in `block_on` goes on, inside `run_executor` or not. -/
theorem Fair.acts (h : Fair p) (i : ι) : LeadsTo (fun n => (p.state n).Inside i ∧
    ((p.state n).parks i).task = .runnable) (Acts p i) := by
  intro n hn
  by_cases hloc : ((p.state n).parks i).call.loc = .runExecutor
  · exact h.leavesExecutor i n ⟨hloc, hn.2⟩
  · exact h.goesOn i n ⟨hn.1, hloc, hn.2⟩

/-- Between two polls its loop goes on. -/
theorem Fair.goes (h : Fair p) (i : ι) :
    LeadsTo (fun n => ((p.state n).parks i).call.loc.between = true ∧
      ((p.state n).parks i).task = .runnable) (Park.Goes (parkPath p i)) := by
  refine .of_until (H := Acts p i) (fun n hn => ?_) ?_ fun n hn hacts => ?_
  · by_cases hgo : Park.Goes (parkPath p i) n
    · exact .inl hgo
    · obtain ⟨hcall, -, htask⟩ := Park.other_of_label hgo hn.1
      exact .inr ⟨hcall.symm ▸ hn.1, htask.elim (fun hsame => hsame.trans hn.2) id⟩
  · refine (LeadsTo.of_imp fun n hn => ⟨fun res hret => ?_, hn.2⟩).trans (h.acts i)
    have hbetween : ((p.state n).parks i).call.loc.between = true := hn.1
    rw [hret] at hbetween
    cases hbetween
  · have hbetween : ((p.state n).parks i).call.loc.between = true := hn.1
    have hin : (p.state n).Inside i := by
      intro res hret
      rw [hret] at hbetween
      cases hbetween
    rcases h.acts_cases hin hacts with ⟨localPort, hlabel⟩ | ⟨a, hlabel⟩
    · rw [loc_of_poll (moves_of_label hlabel) hin] at hbetween
      cases hbetween
    · refine ⟨a, (parkPath_label hlabel).trans ?_⟩
      rw [parkLabel, if_pos rfl]

/-- Each thread is scheduled as `Park` asks for it. -/
theorem Fair.scheduled (h : Fair p) (i : ι) : Park.Scheduled (parkPath p i) where
  notMissed n l' hl' hmissed := by
    obtain ⟨l, hlabel, hl⟩ := Option.bind_eq_some_iff.mp hl'
    cases l' with
    | wakeupTask j =>
      obtain rfl := label_of_wakeupTask hl
      exact h.ok n _ hlabel hmissed
    | _ => exact hmissed
  goesOn := (Park.goes_iff.mp (h.goes i)).1
  leavesExecutor := (Park.goes_iff.mp (h.goes i)).2
  wakesUp j n hn := by
    obtain ⟨m, hnm, hlabel⟩ := h.wakesUp j i n hn
    refine ⟨m, hnm, (parkPath_label hlabel).trans ?_⟩
    rw [parkLabel, if_pos rfl]
  timer := h.timer i

/-- Thread `i` is at its poll in `block_on`, with `fut` left to execute. -/
structure AtPoll (p : (machine tcp).Path) (i : ι) (fut : Future) (n : Nat) : Prop where
  poll : ((p.state n).parks i).call.loc = .poll
  calls : (p.state n).conn.calls i = some fut

/-- `block_on` of thread `i` has returned. -/
def Returned (p : (machine tcp).Path) (i : ι) (n : Nat) : Prop :=
  ∃ res, ((p.state n).parks i).call.loc = .ret res

omit [tcp.Documented] in
theorem AtPoll.inside {i : ι} {fut : Future} {n : Nat} (h : AtPoll p i fut n) :
    (p.state n).Inside i := by
  intro res hret
  cases h.poll.symm.trans hret

/-- A section that is not `Pending` is the last one of the call, or the next one follows. -/
theorem AtPoll.section {i : ι} {fut : Future} {n : Nat} {localPort : UInt16}
    (hat : AtPoll p i fut n) (hlabel : p.label n = some (.poll i localPort)) :
    (p.state n).BlockedOn i ∨ Returned p i (n + 1) ∨
      ∃ fut', AtPoll p i fut' (n + 1) ∧ fut'.sections < fut.sections := by
  have hspec := (p.state n).conn.step_spec fut i localPort
  have hnext : (p.state n).next (.poll i localPort) = some (p.state (n + 1)) :=
    p.next_of_label hlabel
  obtain ⟨fut₁, hfut₁, hrest⟩ := Option.bind_eq_some_iff.mp hnext
  cases hat.calls.symm.trans hfut₁
  obtain ⟨park, hafter, hs'⟩ := Option.map_eq_some_iff.mp hrest
  have hcalls : (p.state (n + 1)).conn.calls i
      = fut.rest ((p.state n).conn.step fut i localPort).1 := by
    rw [← hs']
    exact Function.update_self ..
  have hpark : (p.state (n + 1)).parks i = park := by
    rw [← hs', setPark_self]
  have hcases := after_cases hafter
  generalize ((p.state n).conn.step fut i localPort).1 = progress at hspec hcalls hcases
  cases hcases with
  | out hret => exact absurd hret (hat.inside _)
  | @goesOn fut' hpoll =>
    exact .inr (.inr ⟨fut', ⟨hpark.symm ▸ hpoll, hcalls⟩, Future.sections_next hspec⟩)
  | pending => exact .inl ⟨fut, hat.calls, hspec.pending_iff.mp rfl⟩
  | ready _ _ hret => exact .inr (.inl ⟨_, (congrArg (·.call.loc) hpark).trans hret⟩)

/-- At its poll, a thread executes the sections of its future one after the other. -/
theorem Fair.section_at_poll (h : Fair p) (i : ι) (fut : Future) :
    LeadsTo (AtPoll p i fut) fun n => (p.state n).BlockedOn i ∨ Returned p i (n + 1) ∨
      ∃ fut', AtPoll p i fut' (n + 1) ∧ fut'.sections < fut.sections := by
  have hends : ∀ n, AtPoll p i fut n → Acts p i n → (p.state n).BlockedOn i ∨
      Returned p i (n + 1) ∨
        ∃ fut', AtPoll p i fut' (n + 1) ∧ fut'.sections < fut.sections := by
    intro n hat hacts
    rcases h.acts_cases hat.inside hacts with ⟨localPort, hlabel⟩ | ⟨a, hlabel⟩
    · exact hat.section hlabel
    · -- the loop does nothing here but poll
      have hmoves := moves_of_label hlabel
      generalize p.state (n + 1) = s' at hmoves
      cases hmoves with
      | expired hnot hnext | loop hnot hnext =>
        obtain ⟨loc, s₁, hstep, -, -⟩ := Park.thread_cases hnext
        cases hstep with
        | ready | pending => exact absurd rfl (hnot _)
        | _ hl => cases hl.symm.trans hat.poll
  refine .of_until (H := Acts p i) (fun n hat => ?_) ?_ hends
  · by_cases hacts : Acts p i n
    · exact .inl (hends n hat hacts)
    · cases hlabel : p.label n with
      | none =>
        have hsame := p.state_of_label hlabel
        exact .inr ⟨hsame.symm ▸ hat.poll, hsame.symm ▸ hat.calls⟩
      | some l =>
        have hown : l.own i = false := Bool.eq_false_iff.mpr fun hown => hacts ⟨l, hlabel, hown⟩
        obtain ⟨hcalls, -, hcall, -⟩ := other_moves (moves_of_label hlabel) hown
        exact .inr ⟨hcall.symm ▸ hat.poll, hcalls.trans hat.calls⟩
  · refine (LeadsTo.of_imp fun n hat => ⟨hat.inside, ?_⟩).trans (h.acts i)
    exact ((h.inv n).park i).runnable fun hl => by cases hat.poll.symm.trans hl

/-- A poll ends: its future is blocked, or the call returns. -/
theorem Fair.poll_ends (h : Fair p) (i : ι) :
    LeadsTo (fun n => ∃ fut, AtPoll p i fut n) fun n =>
      (p.state n).BlockedOn i ∨ Returned p i n := by
  refine .of_rank (fun n => (((p.state n).conn.calls i).map Future.sections).getD 0) ?_
  rintro n ⟨fut, hat⟩
  obtain ⟨m, hnm, hblocked | hret | ⟨fut', hat', hless⟩⟩ := h.section_at_poll i fut n hat
  · exact ⟨m, hnm, .inl (.inl hblocked)⟩
  · exact ⟨m + 1, Nat.le_succ_of_le hnm, .inl (.inr hret)⟩
  · refine ⟨m + 1, Nat.le_succ_of_le hnm, .inr ⟨⟨fut', hat'⟩, ?_⟩⟩
    show (((p.state (m + 1)).conn.calls i).map Future.sections).getD 0 <
      (((p.state n).conn.calls i).map Future.sections).getD 0
    rw [hat'.calls, hat.calls]
    exact hless

omit [tcp.Documented] in
theorem woken_of_wake {j i : ι} {n : Nat} (h : p.label n = some (.wake j i)) :
    ((p.state (n + 1)).parks i).woken = true := by
  have hnext : (p.state n).next (.wake j i) = some (p.state (n + 1)) := p.next_of_label h
  obtain ⟨park, hpark, hs'⟩ := Option.map_eq_some_iff.mp hnext
  obtain ⟨-, hwoken⟩ := Option.ite_none_left_eq_some.mp hpark
  rw [← hs', ← Option.some.inj hwoken]
  show ((Function.update (p.state n).parks i _) i).woken = true
  rw [Function.update_self]

/-- A thread that waits for a future that is not blocked has been woken, or will be. -/
theorem Fair.woken_of_waiting (h : Fair p) {i : ι} (hkept : Undisplaced p i) {n k : Nat}
    (hin : (p.state n).Inside i) (hpending : (p.state n).pending i = some k)
    (hready : ¬(p.state n).BlockedOn i) :
    ∃ m, n ≤ m ∧ ((p.state m).parks i).woken = true := by
  have hinv := h.inv n
  obtain ⟨fut, hfut, hspins⟩ := hinv.calls i hin
  have hsleeps : (p.state n).sleepers.pending i = some (i, k) :=
    Option.map_eq_some_iff.mpr ⟨k, hpending, rfl⟩
  have hnot : ∀ buffer, fut ≠ .write buffer := fun buffer hwrite => by
    rw [hwrite] at hspins
    cases hspins
  have hlt : k < (p.state n).woken i := (h.watched hkept n).woken hfut hnot hsleeps
    fun hblocked => hready ⟨fut, hfut, hblocked⟩
  rcases hinv.woken i k hpending hlt with howed | hwoken
  · obtain ⟨m, hnm, j, hlabel⟩ := h.wakes i n howed
    exact ⟨m + 1, Nat.le_succ_of_le hnm, woken_of_wake hlabel⟩
  · exact ⟨n, Nat.le_refl n, hwoken⟩

/-- From each instant at which a thread is in `block_on`, there is a later one at which its call
has returned, or its future is blocked. -/
theorem Fair.ends (h : Fair p) {i : ι} (hkept : Undisplaced p i) :
    LeadsTo (fun n => (p.state n).Inside i) fun n =>
      (p.state n).BlockedOn i ∨ Returned p i n := by
  have hpolls : ∀ n, ((p.state n).parks i).call.loc = .poll →
      ∃ m, n ≤ m ∧ ((p.state m).BlockedOn i ∨ Returned p i m) := by
    intro n hpoll
    obtain ⟨fut, hfut, -⟩ := (h.inv n).calls i fun res hret => by cases hpoll.symm.trans hret
    exact h.poll_ends i n ⟨fut, hpoll, hfut⟩
  intro n hin
  by_cases hblocked : (p.state n).BlockedOn i
  · exact ⟨n, Nat.le_refl n, .inl hblocked⟩
  · cases hpending : (p.state n).pending i with
    | none => exact hpolls n ((h.inv n).first i hin hpending)
    | some k =>
      -- the waker, then the thread, then its poll
      obtain ⟨m, hnm, hwoken⟩ := h.woken_of_waiting hkept hin hpending hblocked
      obtain ⟨m', hmm', hbetween⟩ := (h.scheduled i).resumes m hwoken
      replace hbetween : ((p.state m').parks i).call.loc.between = false := hbetween
      cases hloc : ((p.state m').parks i).call.loc with
      | poll =>
        obtain ⟨k, hmk, hk⟩ := hpolls m' hloc
        exact ⟨k, by omega, hk⟩
      | ret res => exact ⟨m', by omega, .inr ⟨res, hloc⟩⟩
      | _ =>
        rw [hloc] at hbetween
        cases hbetween

/-- **A call returns when its socket is ready**: a thread in `block_on` whose future is not blocked,
as long as it has not returned, returns, if no other thread displaces its waker. -/
theorem returns_of_ready (h : Fair p) {i : ι} (hkept : Undisplaced p i) {n : Nat}
    (hin : (p.state n).Inside i)
    (hready : ∀ m, n ≤ m → (∀ k, n ≤ k → k ≤ m → (p.state k).Inside i) →
      ¬(p.state m).BlockedOn i) : ∃ m, n ≤ m ∧ Returned p i m := by
  by_contra hnever
  have hinside : ∀ k, n ≤ k → (p.state k).Inside i := fun k hk res hret => hnever ⟨k, hk, res, hret⟩
  obtain ⟨m, hnm, hblocked | hret⟩ := h.ends hkept n hin
  · exact hready m hnm (fun k hk _ => hinside k hk) hblocked
  · exact hnever ⟨m, hnm, hret⟩

/-- What is final for a future of thread `i` stays so until its call has returned. -/
theorem Fair.final_stays (h : Fair p) {i : ι} {fut : Future} {n : Nat}
    (hin : (p.state n).Inside i) (hi : (p.state n).conn.calls i = some fut)
    (hfinal : fut.Final (p.state n).conn.view.state) : Returned p i (n + 1) ∨
      ((p.state (n + 1)).Inside i ∧ (p.state (n + 1)).conn.calls i = some fut ∧
        fut.Final (p.state (n + 1)).conn.view.state) := by
  cases hlabel : p.label n with
  | none =>
    rw [p.state_of_label hlabel]
    exact .inr ⟨hin, hi, hfinal⟩
  | some l =>
    have hmoves := moves_of_label hlabel
    have hfinal' : fut.Final (p.state (n + 1)).conn.view.state := by
      rcases conn_next hmoves with hsame | ⟨l', hconn⟩
      · exact hsame.symm ▸ hfinal
      · exact Conn.final_next (h.inv n).conn hi hfinal hconn
    cases hown : l.own i with
    | false =>
      obtain ⟨hcalls, -, hcall, -⟩ := other_moves hmoves hown
      exact .inr ⟨fun res hret => hin res (hcall ▸ hret), hcalls.trans hi, hfinal'⟩
    | true =>
      rcases h.acts_cases hin ⟨l, hlabel, hown⟩ with ⟨localPort, hpoll⟩ | ⟨a, hloop⟩
      · -- its section is the last one
        have hat : AtPoll p i fut n := ⟨loc_of_poll (moves_of_label hpoll) hin, hi⟩
        rcases hat.section hpoll with ⟨fut', hfut', hblocked⟩ | hret | ⟨fut', -, hless⟩
        · cases hi.symm.trans hfut'
          exact absurd hblocked hfinal.not_blocked
        · exact .inl hret
        · cases fut with
          | connectPoll | closeWait => cases hless
          | _ => exact hfinal.elim
      · cases hlabel.symm.trans hloop
        generalize hs' : p.state (n + 1) = s' at hmoves hfinal'
        cases hmoves with
        | @expired i a conn park res _ _ hret =>
          refine .inl ⟨res, ?_⟩
          rw [hs']
          show (((p.state n).setPark i park).parks i).call.loc = _
          rw [setPark_self, hret]
        | @loop i a park _ _ hin' =>
          refine .inr ⟨?_, hi, hfinal'⟩
          intro res
          rw [setPark_self]
          exact hin' res

/-- **`connect` returns when its handshake is over, and `close` when the peer has answered**:
what they wait for is final. -/
theorem returns_of_final (h : Fair p) {i : ι} (hkept : Undisplaced p i) {fut : Future} {n : Nat}
    (hin : (p.state n).Inside i) (hi : (p.state n).conn.calls i = some fut)
    (hfinal : fut.Final (p.state n).conn.view.state) : ∃ m, n ≤ m ∧ Returned p i m := by
  by_contra hnever
  have hstays : ∀ m, n ≤ m → (p.state m).Inside i ∧ (p.state m).conn.calls i = some fut ∧
      fut.Final (p.state m).conn.view.state := by
    intro m hm
    induction hm with
    | refl => exact ⟨hin, hi, hfinal⟩
    | @step m hm ih =>
      obtain ⟨hin, hi, hfinal⟩ := ih
      exact (h.final_stays hin hi hfinal).resolve_left fun hret =>
        hnever ⟨m + 1, Nat.le_succ_of_le hm, hret⟩
  obtain ⟨m, hnm, ⟨fut', hfut', hblocked⟩ | hret⟩ := h.ends hkept n hin
  · obtain ⟨-, hi', hfinal'⟩ := hstays m hnm
    cases hi'.symm.trans hfut'
    exact hfinal'.not_blocked hblocked
  · exact hnever ⟨m, hnm, hret⟩

/-! ### What goes on until it is ended -/

omit [tcp.Documented] in
theorem inside_stays {i : ι} {n : Nat} (h : (p.state n).Inside i) :
    Acts p i n ∨ (p.state (n + 1)).Inside i := by
  cases hlabel : p.label n with
  | none => exact .inr ((p.state_of_label hlabel).symm ▸ h)
  | some l =>
    cases hown : l.own i with
    | true => exact .inl ⟨l, hlabel, hown⟩
    | false =>
      obtain ⟨-, -, hcall, -⟩ := other_moves (moves_of_label hlabel) hown
      refine .inr fun res hret => h res ?_
      rw [← hcall]
      exact hret

omit [tcp.Documented] in
theorem owed_stays {i : ι} {n : Nat} (h : 0 < (p.state n).owed i) :
    (∃ j, p.label n = some (.wake j i)) ∨ 0 < (p.state (n + 1)).owed i := by
  cases hlabel : p.label n with
  | none => exact .inr ((p.state_of_label hlabel).symm ▸ h)
  | some l =>
    rcases owed_moves (moves_of_label hlabel) i with ⟨⟨j, rfl⟩, -⟩ | hgrown
    · exact .inl ⟨j, rfl⟩
    · exact .inr (by omega)

omit [tcp.Documented] in
theorem waking_stays {i j : ι} {n : Nat} (h : ((p.state n).parks i).waking j = true) :
    p.label n = some (.wakeupTask j i) ∨ ((p.state (n + 1)).parks i).waking j = true := by
  cases hlabel : p.label n with
  | none => exact .inr ((p.state_of_label hlabel).symm ▸ h)
  | some l =>
    have hwait := park_wait (moves_of_label hlabel) i
    cases hl : (p.state n).parkLabel i l with
    | none =>
      rw [hl] at hwait
      exact .inr (Option.some.inj hwait ▸ h)
    | some l' =>
      rw [hl] at hwait
      rcases Park.waking_of_next hwait h with rfl | hstill
      · exact .inl (congrArg some (label_of_wakeupTask hl))
      · exact .inr hstill

end Paths

/-! ## A run that comes to an end -/

/-- No `sys_wakeup_task` falls into a window, and thread `true` has no future. -/
def windowShut (s : Blocking (asyncReference Bool false)) : Label Bool → Bool
  | .wakeupTask _ i =>
    match (s.parks i).call.loc with
    | .block _ => false
    | _ => true
  | .poll j _ => !j
  | _ => true

theorem ok_of_shut {s : Blocking (asyncReference Bool false)} {l : Label Bool}
    (h : windowShut s l = true) : s.ok l := by
  cases l with
  | wakeupTask j i =>
    intro hmissed
    simp only [windowShut, hmissed.1] at h
    cases h
  | _ => trivial

theorem not_displaces_of_shut {s : Blocking (asyncReference Bool false)} {l : Label Bool}
    (h : windowShut s l = true) : ¬ s.Displaces false l := by
  intro hdisplaces
  cases l with
  | poll j localPort =>
    simp only [windowShut, Bool.not_eq_true'] at h
    exact hdisplaces.1 h
  | _ => exact hdisplaces

/-- A new socket, thread `false` that is to use it, and thread `true` that runs `iface.poll`. -/
def unused : Blocking (asyncReference Bool false) where
  conn := .new 0
  parks := fun _ => ⟨⟨⟨0⟩, none, .ret (.error ())⟩, false, .runnable, fun _ => false, false⟩
  owed := fun _ => 0
  pending := fun _ => none

theorem unused_init : unused.Init :=
  ⟨⟨0, rfl⟩, fun _ => ⟨⟨_, rfl⟩, rfl⟩, fun _ => rfl, fun _ => rfl⟩

variable {labels : List (Label Bool)} {s : Blocking (asyncReference Bool false)}

/-- A run, and after it nothing. -/
def pathOfRun (h : (machine (asyncReference Bool false)).runBy windowShut unused labels = some s) :
    (machine (asyncReference Bool false)).Path :=
  .ofRun unused_init (Machine.run_of_runBy h)

theorem pathOfRun_state
    (h : (machine (asyncReference Bool false)).runBy windowShut unused labels = some s) {n : Nat}
    (hn : labels.length ≤ n) : (pathOfRun h).state n = s :=
  Machine.Path.ofRun_state _ _ hn

theorem undisplaced_pathOfRun
    (h : (machine (asyncReference Bool false)).runBy windowShut unused labels = some s) :
    Undisplaced (pathOfRun h) false :=
  fun n l hl => not_displaces_of_shut (Machine.Path.ok_of_runBy h n l hl)

/-- Nobody is in `block_on`, and no wake is on its way. -/
structure Over (s : Blocking (asyncReference Bool false)) (i : Bool) : Prop where
  ret : ∃ res, (s.parks i).call.loc = .ret res
  task : (s.parks i).task = .runnable
  waking : ∀ j, (s.parks i).waking j = false
  owed : s.owed i = 0

/-- Such a run is fair if all is over at its end. -/
theorem fair_pathOfRun
    (h : (machine (asyncReference Bool false)).runBy windowShut unused labels = some s)
    (hover : ∀ i, s.Over i) : Fair (pathOfRun h) := by
  have hlast : ∀ n, labels.length ≤ n → (pathOfRun h).state n = s := fun n hn =>
    pathOfRun_state h hn
  have hacts : ∀ i, LeadsTo (fun n => ((pathOfRun h).state n).Inside i)
      (Acts (pathOfRun h) i) := by
    intro i
    refine .of_ends (m := labels.length) (fun n => inside_stays) fun n hn hin => ?_
    obtain ⟨res, hret⟩ := (hover i).ret
    refine hin res ?_
    rw [hlast n hn]
    exact hret
  refine ⟨?_, fun i => ?_, fun i => ?_, fun i => ?_, fun j i => ?_, fun i => ?_⟩
  · exact fun n l hl => ok_of_shut (Machine.Path.ok_of_runBy h n l hl)
  · exact (LeadsTo.of_imp fun n hn => hn.1).trans (hacts i)
  · refine (LeadsTo.of_imp fun n hn res hret => ?_).trans (hacts i)
    cases hn.1.symm.trans hret
  · refine .of_ends (m := labels.length) (fun n => owed_stays) fun n hn howed => ?_
    rw [hlast n hn, (hover i).owed] at howed
    exact Nat.lt_irrefl 0 howed
  · refine .of_ends (m := labels.length) (fun n => waking_stays) fun n hn hwaking => ?_
    rw [hlast n hn, (hover i).waking j] at hwaking
    cases hwaking
  · refine fun n _ => ⟨max n labels.length, Nat.le_max_left _ _, ?_⟩
    show (((pathOfRun h).state _).parks i).task ≠ .blockedWithTimeout
    rw [hlast _ (Nat.le_max_right _ _), (hover i).task]
    exact KernelTask.noConfusion

/-- `connect` sends its SYN and parks. -/
def connectParks : List (Label Bool) :=
  [.block false (.connect remoteHostText 80) ⟨0⟩ none, .poll false 49152, .poll false 0,
    .loop false (.timeout ⟨0⟩), .loop false (.delay none), .loop false (.swap false),
    .loop false .block]

/-- The peer answers, the thread is woken and polls again. -/
def connectReturns : List (Label Bool) :=
  connectParks ++ [.segment (fromRemote .syn true 0 []), .wake true false, .wakeupTask true false,
    .loop false .yield, .loop false .store, .loop false .runExecutor, .poll false 0]

theorem connectReturns_over : ∃ s,
    ∃ h : (machine (asyncReference Bool false)).runBy windowShut unused connectReturns = some s,
    Fair (pathOfRun h) := by
  obtain ⟨s, h, hfalse, htrue⟩ : ∃ s : Blocking (asyncReference Bool false),
      (machine (asyncReference Bool false)).runBy windowShut unused connectReturns = some s ∧
        s.Over false ∧ s.Over true :=
    ⟨_, rfl, ⟨⟨_, rfl⟩, rfl, fun j => by cases j <;> rfl, rfl⟩,
      ⟨⟨_, rfl⟩, rfl, fun j => by cases j <;> rfl, rfl⟩⟩
  exact ⟨s, h, fair_pathOfRun h (Bool.forall_bool.mpr ⟨hfalse, htrue⟩)⟩

theorem returns_of_ready_connect : ∃ s,
    ∃ h : (machine (asyncReference Bool false)).runBy windowShut unused connectReturns = some s,
    ∃ m, 8 ≤ m ∧ Returned (pathOfRun h) false m := by
  obtain ⟨s, h, hfair⟩ := connectReturns_over
  refine ⟨s, h, returns_of_ready hfair (undisplaced_pathOfRun h)
    (fun res hret => by cases hret) fun m hm hins => ?_⟩
  have hcases : m = 8 ∨ m = 9 ∨ m = 10 ∨ m = 11 ∨ m = 12 ∨ m = 13 ∨ 14 ≤ m := by omega
  rcases hcases with rfl | rfl | rfl | rfl | rfl | rfl | hend
  case inr.inr.inr.inr.inr.inr => exact absurd rfl (hins 14 (by decide) hend _)
  all_goals
    rintro ⟨fut, hfut, hblocked⟩
    cases hfut
    rcases hblocked with hstate | hstate <;> cases hstate

/-- When the peer has answered, the thread is still parked. -/
theorem returns_of_final_connect : ∃ s,
    ∃ h : (machine (asyncReference Bool false)).runBy windowShut unused connectReturns = some s,
    (((pathOfRun h).state 8).parks false).task = .blocked ∧
      ∃ m, 8 ≤ m ∧ Returned (pathOfRun h) false m := by
  obtain ⟨s, h, hfair⟩ := connectReturns_over
  have hi : ((pathOfRun h).state 8).conn.calls false = some .connectPoll := rfl
  refine ⟨s, h, rfl, returns_of_final hfair (undisplaced_pathOfRun h) ?_ hi ?_⟩
  · intro res hret
    cases hret
  · exact ⟨TcpState.noConfusion, TcpState.noConfusion, TcpState.noConfusion⟩

end Blocking

end RustyHermit.Net
