import RustyHermit.Lib.Machine
import RustyHermit.Lib.Executor
import RustyHermit.Net.Waker

/-!
# Who polls the interface: `network_run`, `nic_thread` and the NIC's waker

`AsyncSocket::with` changes a socket and then wakes the NIC's
`WakerRegistration`; the waker in that slot belongs to the background task
`network_run`, which some thread inside `run_executor` eventually pops from
`QUEUE`, and whose poll registers the waker again and polls the interface, all
under the NIC lock. `nic_thread` polls the interface on its own account.

The machine has any number of threads. Every critical section of the NIC lock
is one step; popping a runnable, starting it and finishing it are steps of
their own, so wakes may come between any two of them. Other tasks may be
spawned, woken and run as well.

`token_held` is the invariant the network's progress rests on: when the slot is
empty, a poll of `network_run` that has not begun is waiting somewhere, and
there is never a second runnable of it in `QUEUE`. Since a change of a socket
empties the slot, a poll of the interface that starts after the change is owed
until it has happened.
-/

namespace RustyHermit.Net

/-- The tasks that run on the executor. -/
inductive Task where
  | networkRun
  | other (n : Nat)
deriving DecidableEq, Repr

/-- The waker slot of the NIC, the executor, and a count of the polls of the
interface. -/
structure Scheduler (ι : Type) where
  /-- `NetworkInterface::waker` -/
  waker : WakerRegistration Task
  executor : Executor Task ι
  /-- ghost: how often `poll_common` has been executed -/
  polls : Nat
  /-- ghost: the value of `polls` when the thread last changed a socket -/
  changed : ι → Option Nat

namespace Scheduler

variable {ι : Type}

/-- A poll of `network_run` that has not begun yet is waiting: its runnable is
in `QUEUE`, or a thread has popped it and not yet registered its waker, or it
is running and marked to be rescheduled. -/
def Owed (s : Scheduler ι) : Prop :=
  .networkRun ∈ s.executor.queue ∨
    (∃ i, s.executor.hold i = .popped .networkRun ∨
      s.executor.hold i = .polling .networkRun) ∨
    ((s.executor.task .networkRun).running = true ∧
      (s.executor.task .networkRun).scheduled = true)

/-- `NetworkInterface::poll_common`. -/
def pollCommon (s : Scheduler ι) : Scheduler ι :=
  { s with polls := s.polls + 1 }

/-- `Waker::wake`, if there is a waker. -/
def wakeTask (s : Scheduler ι) (w : Option Task) : Scheduler ι :=
  match w with
  | some r => { s with executor := s.executor.wake r }
  | none => s

/-- `NetworkInterface::wake`. -/
def nicWake (s : Scheduler ι) : Scheduler ι :=
  { s with waker := s.waker.wake.1 }.wakeTask s.waker.wake.2

/-- `NetworkInterface::poll`, called with the waker of `network_run`: register,
then poll the interface. Two wakers of tasks are the same if the tasks are. -/
def nicPoll (s : Scheduler ι) : Scheduler ι :=
  let r := s.waker.register (fun w w' => w == w') .networkRun
  ({ s with waker := r.1 }.wakeTask r.2).pollCommon

variable [DecidableEq ι]

/-- `AsyncSocket::with` by thread `i`: a socket is changed, the NIC is woken. -/
def withSocket (s : Scheduler ι) (i : ι) : Scheduler ι :=
  { s.nicWake with changed := Function.update s.changed i (some s.polls) }

/-- What can happen next. -/
inductive Label (ι : Type) where
  | withSocket (i : ι)
  /-- `QUEUE.pop()` in the `run_executor` of thread `i` -/
  | pop (i : ι)
  /-- thread `i` starts the runnable it popped -/
  | start (i : ι)
  /-- thread `i` polls `network_run`: one critical section -/
  | networkRun (i : ι)
  /-- thread `i` polls another task, which may be ready -/
  | otherRun (i : ι) (ready : Bool)
  /-- thread `i` is done with a task that was pending -/
  | finish (i : ι)
  /-- `nic_thread` polls the interface: one critical section -/
  | nicThread
  /-- another task is spawned or woken -/
  | wakeOther (n : Nat)

/-- The steps that poll the interface. -/
def Label.pollsInterface : Label ι → Bool
  | .networkRun _ | .nicThread => true
  | _ => false

/-- One step of a thread. -/
def next (s : Scheduler ι) : Label ι → Option (Scheduler ι)
  | .withSocket i => some (s.withSocket i)
  | .pop i => (s.executor.pop i).map fun executor => { s with executor }
  | .start i => (s.executor.start i).map fun executor => { s with executor }
  | .networkRun i =>
    if s.executor.hold i = .polling .networkRun then
      (s.nicPoll.executor.polled i).map fun executor => { s.nicPoll with executor }
    else none
  | .otherRun i ready =>
    match s.executor.hold i with
    | .polling (.other _) =>
      (if ready then s.executor.complete i else s.executor.polled i).map
        fun executor => { s with executor }
    | _ => none
  | .finish i => (s.executor.finish i).map fun executor => { s with executor }
  | .nicThread => some s.pollCommon
  | .wakeOther n => some (s.wakeTask (some (.other n)))

/-- `network_init` up to its last call: the NIC is there and was polled once,
and `network_run` has been spawned, which queues its first runnable. -/
def networkInit : Scheduler ι :=
  { waker := .new
    executor := Executor.wake ⟨[], fun _ => .idle, fun _ => .nothing⟩ .networkRun
    polls := 1
    changed := fun _ => none }

/-- All threads, from the end of `network_init` on. -/
def machine (ι : Type) [DecidableEq ι] : Machine (Scheduler ι) (Label ι) where
  init s := s = networkInit
  next := next

/-! ## The counters -/

/-- Polls of the interface are counted, and only a change of a socket is
stamped. -/
theorem next_polls {s s' : Scheduler ι} {l : Label ι}
    (hl : ∀ i, l ≠ .withSocket i) (h : s.next l = some s') :
    s'.changed = s.changed ∧ s.polls ≤ s'.polls ∧
      (l.pollsInterface = true → s.polls < s'.polls) := by
  cases l with
  | withSocket i => exact absurd rfl (hl i)
  | pop i | start i | finish i =>
    obtain ⟨e, -, rfl⟩ := Option.map_eq_some_iff.mp h
    exact ⟨rfl, Nat.le_refl _, nofun⟩
  | otherRun i ready =>
    simp only [next] at h
    split at h
    case h_2 => cases h
    case h_1 =>
      obtain ⟨e, -, rfl⟩ := Option.map_eq_some_iff.mp h
      exact ⟨rfl, Nat.le_refl _, nofun⟩
  | networkRun i =>
    obtain ⟨-, hs'⟩ := Option.ite_none_right_eq_some.mp h
    obtain ⟨e, -, rfl⟩ := Option.map_eq_some_iff.mp hs'
    have hpolls : s.nicPoll.polls = s.polls + 1 ∧ s.nicPoll.changed = s.changed := by
      simp only [nicPoll, pollCommon, wakeTask]
      split <;> exact ⟨rfl, rfl⟩
    simp only [hpolls]
    exact ⟨trivial, Nat.le_succ _, fun _ => Nat.lt_succ_self _⟩
  | nicThread =>
    cases h
    exact ⟨rfl, Nat.le_succ _, fun _ => Nat.lt_succ_self _⟩
  | wakeOther n =>
    cases h
    exact ⟨rfl, Nat.le_refl _, nofun⟩

/-- A change of a socket is stamped with the polls so far. -/
theorem withSocket_polls (s : Scheduler ι) (i : ι) :
    (s.withSocket i).polls = s.polls ∧
      (s.withSocket i).changed = Function.update s.changed i (some s.polls) := by
  refine ⟨?_, rfl⟩
  simp only [withSocket, nicWake, wakeTask]
  split <;> rfl

/-! ## The slot -/

omit [DecidableEq ι] in
theorem wakeTask_waker (s : Scheduler ι) (w : Option Task) :
    (s.wakeTask w).waker = s.waker := by
  cases w <;> rfl

/-- After a change of a socket the slot is empty. -/
theorem withSocket_waker (s : Scheduler ι) (i : ι) : (s.withSocket i).waker.waker = none := by
  show s.nicWake.waker.waker = none
  rw [nicWake, wakeTask_waker]
  rfl

/-- The slot is filled by a poll of the interface, and emptied by a change of a
socket. -/
theorem next_waker {s s' : Scheduler ι} {l : Label ι} (hl : ∀ i, l ≠ .withSocket i)
    (hpoll : l.pollsInterface = false) (h : s.next l = some s') : s'.waker = s.waker := by
  cases l with
  | withSocket i => exact absurd rfl (hl i)
  | networkRun i | nicThread => cases hpoll
  | pop i | start i | finish i =>
    obtain ⟨e, -, rfl⟩ := Option.map_eq_some_iff.mp h
    rfl
  | otherRun i ready =>
    simp only [next] at h
    split at h
    case h_2 => cases h
    case h_1 =>
      obtain ⟨e, -, rfl⟩ := Option.map_eq_some_iff.mp h
      rfl
  | wakeOther n =>
    cases h
    exact wakeTask_waker s _

/-! ## The invariant -/

/-- The invariant of the network task. -/
structure Inv (s : Scheduler ι) : Prop where
  wf : s.executor.WF
  /-- nobody but `network_run` registers with the NIC -/
  slot : ∀ r, s.waker.waker = some r → r = .networkRun
  alive : (s.executor.task .networkRun).completed = false
  /-- an empty slot means that a poll of `network_run` is to come -/
  token : s.waker.waker = none → s.executor.Armed .networkRun
  /-- a change that no poll has followed has emptied the slot -/
  stamped : ∀ i c, s.changed i = some c →
    c ≤ s.polls ∧ (c = s.polls → s.waker.waker = none)

omit [DecidableEq ι] in
theorem Inv.owed {s : Scheduler ι} (h : s.Inv) (hw : s.waker.waker = none) :
    s.Owed :=
  h.wf.armed_cases (h.token hw)

omit [DecidableEq ι] in
/-- A step of the executor that keeps the runnables and `network_run`'s poll to
come. -/
theorem Inv.setExecutor {s : Scheduler ι} (h : s.Inv) {e : Executor Task ι}
    (hwf : e.WF)
    (halive : (e.task .networkRun).completed =
      (s.executor.task .networkRun).completed)
    (harmed : s.executor.Armed .networkRun → e.Armed .networkRun) :
    Inv { s with executor := e } :=
  { wf := hwf
    slot := h.slot
    alive := halive.trans h.alive
    token := fun hw => harmed (h.token hw)
    stamped := h.stamped }

omit [DecidableEq ι] in
/-- Waking the NIC keeps the invariant: whoever emptied the slot before has
armed `network_run`, and whoever empties it now does. -/
theorem Inv.nicWake {s : Scheduler ι} (h : s.Inv) :
    s.nicWake.Inv ∧ s.nicWake.waker.waker = none ∧ s.nicWake.polls = s.polls := by
  cases hw : s.waker.waker with
  | none =>
    have heq : s.nicWake = { s with waker := ⟨none⟩ } := by
      simp only [Scheduler.nicWake, WakerRegistration.wake, hw, wakeTask]
    rw [heq]
    exact ⟨{ h with
      slot := fun _ hr => by cases hr
      token := fun _ => h.token hw
      stamped := fun i c hc => ⟨(h.stamped i c hc).1, fun _ => rfl⟩ }, rfl, rfl⟩
  | some r =>
    obtain rfl := h.slot r hw
    have heq : s.nicWake = { s with
        waker := ⟨none⟩, executor := s.executor.wake .networkRun } := by
      simp only [Scheduler.nicWake, WakerRegistration.wake, hw, wakeTask]
    rw [heq]
    exact ⟨{
      wf := h.wf.wake _
      slot := fun _ hr => by cases hr
      alive := (Executor.wake_completed ..).trans h.alive
      token := fun _ => Executor.armed_wake h.alive
      stamped := fun i c hc => ⟨(h.stamped i c hc).1, fun _ => rfl⟩ }, rfl, rfl⟩

/-- A change of a socket is stamped with the polls so far and empties the slot. -/
theorem Inv.withSocket {s : Scheduler ι} (h : s.Inv) (i : ι) :
    (s.withSocket i).Inv := by
  obtain ⟨hinv, hw, hpolls⟩ := h.nicWake
  refine { hinv with stamped := fun j c hc => ⟨?_, fun _ => hw⟩ }
  show c ≤ s.nicWake.polls
  rw [hpolls]
  rcases update_cases (f := s.changed) (i := i) hc with ⟨-, hc⟩ | ⟨-, hc⟩
  · cases hc
    exact Nat.le_refl _
  · exact (h.stamped j c hc).1

omit [DecidableEq ι] in
/-- A change is older than the next poll of the interface. -/
theorem Inv.stamped_succ {s : Scheduler ι} (h : s.Inv) {p : Prop} {i : ι} {c : Nat}
    (hc : s.changed i = some c) : c ≤ s.polls + 1 ∧ (c = s.polls + 1 → p) := by
  have hle := (h.stamped i c hc).1
  refine ⟨by omega, ?_⟩
  intro heq
  omega

omit [DecidableEq ι] in
/-- A poll of the interface comes after every change so far. -/
theorem Inv.pollCommon {s : Scheduler ι} (h : s.Inv) : s.pollCommon.Inv :=
  { h with stamped := fun _ _ => h.stamped_succ }

omit [DecidableEq ι] in
/-- As only `network_run` registers, its registration displaces nobody. -/
theorem Inv.nicPoll_eq {s : Scheduler ι} (h : s.Inv) :
    s.nicPoll = { s with waker := ⟨some .networkRun⟩, polls := s.polls + 1 } := by
  obtain ⟨⟨w⟩, e, polls, changed⟩ := s
  cases w with
  | none => rfl
  | some r =>
    -- `will_wake`: the waker in the slot is its own
    obtain rfl := h.slot r rfl
    rfl

/-- The poll of `network_run`: the slot is full again, and no change is older
than a poll of the interface. -/
theorem Inv.networkRun {s : Scheduler ι} (h : s.Inv) {i : ι} {e : Executor Task ι}
    (hp : s.executor.polled i = some e) :
    Inv { s with
      waker := ⟨some .networkRun⟩, polls := s.polls + 1, executor := e } where
  wf := h.wf.polled hp
  slot r hr := by
    cases hr
    rfl
  alive := by
    show (e.task .networkRun).completed = false
    rw [Executor.polled_task hp]
    exact h.alive
  token := nofun
  stamped _ _ := h.stamped_succ

omit [DecidableEq ι] in
theorem inv_networkInit : (networkInit : Scheduler ι).Inv where
  wf := Executor.WF.idle.wake _
  slot := nofun
  alive := rfl
  token _ := Executor.armed_wake
    (e := ⟨[], fun _ => .idle, fun _ => .nothing⟩) rfl
  stamped := nofun

/-- Every step keeps the invariant. -/
theorem inv_next {s s' : Scheduler ι} {l : Label ι} (h : s.Inv)
    (hnext : s.next l = some s') : s'.Inv := by
  cases l with
  | withSocket i =>
    cases hnext
    exact h.withSocket i
  | pop i =>
    obtain ⟨e, hp, rfl⟩ := Option.map_eq_some_iff.mp hnext
    exact h.setExecutor (h.wf.pop hp) (by rw [Executor.pop_task hp]) (·.pop hp)
  | start i =>
    obtain ⟨e, hp, rfl⟩ := Option.map_eq_some_iff.mp hnext
    exact h.setExecutor (h.wf.start hp) (Executor.start_completed hp _) (·.start hp)
  | networkRun i =>
    obtain ⟨-, hs'⟩ := Option.ite_none_right_eq_some.mp hnext
    rw [h.nicPoll_eq] at hs'
    obtain ⟨e, hp, rfl⟩ := Option.map_eq_some_iff.mp hs'
    exact h.networkRun hp
  | otherRun i ready =>
    simp only [next] at hnext
    split at hnext
    case h_2 => cases hnext
    case h_1 n hi =>
      obtain ⟨e, hp, rfl⟩ := Option.map_eq_some_iff.mp hnext
      split at hp
      · exact h.setExecutor (h.wf.complete hp)
          (Executor.complete_completed hi nofun hp) (·.complete hi nofun hp)
      · exact h.setExecutor (h.wf.polled hp) (by rw [Executor.polled_task hp])
          (·.polled (by rw [hi]; nofun) hp)
  | finish i =>
    obtain ⟨e, hp, rfl⟩ := Option.map_eq_some_iff.mp hnext
    exact h.setExecutor (h.wf.finish hp) (Executor.finish_completed hp _)
      (·.finish hp)
  | nicThread =>
    cases hnext
    exact h.pollCommon
  | wakeOther n =>
    cases hnext
    exact h.setExecutor (h.wf.wake _) (Executor.wake_completed ..) (·.wake _)

theorem Reachable.inv {s : Scheduler ι} (h : (machine ι).Reachable s) : s.Inv :=
  h.invariant (I := Inv) (fun _ hinit => hinit ▸ inv_networkInit)
    (fun _ _ _ hinv hnext => inv_next hinv hnext)

/-! ## The network task is neither lost nor doubled -/

/-- **The token of the network task**: in every reachable state, an empty waker
slot means that a poll of `network_run` is waiting; `QUEUE` never holds two
runnables of it; and a change of a socket has been followed by a poll of the
interface, or one is waiting. -/
theorem token_held {s : Scheduler ι} (h : (machine ι).Reachable s) :
    (s.waker.waker = none → s.Owed) ∧
    s.executor.queue.count .networkRun ≤ 1 ∧
    ∀ i c, s.changed i = some c → c < s.polls ∨ s.Owed := by
  have hinv := Reachable.inv h
  refine ⟨hinv.owed, List.nodup_iff_count_le_one.mp hinv.wf.nodup _, ?_⟩
  intro i c hc
  obtain ⟨hle, hempty⟩ := hinv.stamped i c hc
  rcases Nat.lt_or_eq_of_le hle with hlt | heq
  · exact .inl hlt
  · exact .inr (hinv.owed (hempty heq))

/-- A socket is changed while `network_run` is between its poll and the
executor's bookkeeping: the slot is empty, and the poll is owed by the mark. -/
theorem token_held_while_running : ∃ s : Scheduler Unit,
    (machine Unit).run networkInit
      [.pop (), .start (), .networkRun (), .withSocket ()] = some s ∧
      s.waker.waker = none ∧ s.changed () = some s.polls ∧ s.Owed ∧
      s.executor.queue.count .networkRun ≤ 1 := by
  have hinit : (machine Unit).Reachable networkInit := .init rfl
  obtain ⟨s, hrun, hw, hc⟩ : ∃ s : Scheduler Unit,
      (machine Unit).run networkInit
        [.pop (), .start (), .networkRun (), .withSocket ()] = some s ∧
        s.waker.waker = none ∧ s.changed () = some s.polls :=
    ⟨_, rfl, rfl, rfl⟩
  have htoken := token_held (hinit.run hrun)
  exact ⟨s, hrun, hw, hc, htoken.1 hw, htoken.2.1⟩

end Scheduler

end RustyHermit.Net
