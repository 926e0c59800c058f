import RustyHermit.Lib.Fairness
import RustyHermit.Net.Nic
import RustyHermit.Smoltcp.Reference

/-!
# The network goes on

What a call has put into a socket is sent by the next poll of the interface. The invariants
say that a poll is owed; here it is made, in every run that goes on for ever and in which

- a thread in `run_executor` gets to run, and
- `QUEUE` is not left alone with runnables in it: as long as there are some, some thread will
  be in `run_executor`.

Both are about threads, not about tasks: that a thread finishes what it has popped, and pops
again before it leaves, is what `run_executor` does.

- `change_polled`: each change of a socket by a call is followed by a poll of `network_run`.
- `woken_polled`: a task that is woken is polled, whatever else is queued.
-/

namespace RustyHermit.Net

open RustyHermit.Smoltcp

/-! ## The executor in the network -/

namespace Scheduler

variable {ι : Type}

/-- What a step means for the executor. -/
def event (s : Scheduler ι) : Label ι → Option (Executor.Event Task ι)
  | .withSocket _ => s.waker.waker.map .wake
  | .pop i => some (.pop i)
  | .start i => some (.start i)
  | .networkRun i => some (.polled i)
  | .otherRun i ready => some (if ready then .complete i else .polled i)
  | .finish i => some (.finish i)
  | .nicThread => none
  | .wakeOther n => some (.wake (.other n))

variable [DecidableEq ι]

theorem Inv.wait {s s' : Scheduler ι} (h : s.Inv) {l : Label ι} (hnext : s.next l = some s') :
    (Executor.machine Task ι).wait s.executor (s.event l) = some s'.executor := by
  cases l with
  | withSocket i =>
    cases hnext
    show Machine.wait _ _ (s.waker.waker.map Executor.Event.wake) = some s.nicWake.executor
    rw [Scheduler.nicWake, WakerRegistration.wake]
    cases s.waker.waker with
    | none => rfl
    | some r => rfl
  | pop i | start i | finish i =>
    obtain ⟨e, he, rfl⟩ := Option.map_eq_some_iff.mp hnext
    exact he
  | networkRun i =>
    obtain ⟨-, hs'⟩ := Option.ite_none_right_eq_some.mp hnext
    rw [h.nicPoll_eq] at hs'
    obtain ⟨e, he, rfl⟩ := Option.map_eq_some_iff.mp hs'
    exact he
  | otherRun i ready =>
    simp only [next] at hnext
    split at hnext
    case h_2 => cases hnext
    case h_1 =>
      obtain ⟨e, he, rfl⟩ := Option.map_eq_some_iff.mp hnext
      cases ready with
      | true => exact he
      | false => exact he
  | nicThread =>
    cases hnext
    rfl
  | wakeOther n =>
    cases hnext
    rfl

end Scheduler

namespace Nic

variable {W : Type} {tcp : SmolTcp W} {ι : Type}

/-- What a step means for the scheduler. -/
def schedLabel (n : Nic tcp ι) : Label W ι → Option (Scheduler.Label ι)
  | .section i _ =>
    (n.current i).bind fun fut => if fut.usesWith tcp then some (.withSocket i) else none
  | .sched l _ => some l
  | _ => none

/-- What a step means for the executor: `AsyncSocket::with` wakes whose waker is in the slot. -/
def event (n : Nic tcp ι) (l : Label W ι) : Option (Executor.Event Task ι) :=
  (n.schedLabel l).bind n.sched.event

/-- The thread that takes a step. -/
def Label.thread : Label W ι → Option ι
  | .openSocket i _ _ _ | .call i _ _ | .section i _ | .act i _ | .ret i => some i
  | .sched l _ =>
    match l with
    | .withSocket i | .pop i | .start i | .networkRun i | .otherRun i _ | .finish i => some i
    | .nicThread | .wakeOther _ => none

variable [DecidableEq ι]

theorem wait_sched {n n' : Nic tcp ι} {l : Label W ι} (h : n.next l = some n') :
    (Scheduler.machine ι).wait n.sched (n.schedLabel l) = some n'.sched := by
  have hstep := step_of_next h
  cases hstep with
  | @«section» i cx f c fut driver hf hc hfut hdriver =>
    simp only [schedLabel, current_eq hf hc hfut, Option.bind_some, sectioned]
    split
    · rfl
    · rfl
  | @sched l events sched _ hsched => exact hsched
  | openSocket | call | act | ret => rfl

theorem wait_executor {n n' : Nic tcp ι} {l : Label W ι} (hn : (machine tcp ι).Reachable n)
    (h : n.next l = some n') :
    (Executor.machine Task ι).wait n.sched.executor (n.event l) = some n'.sched.executor := by
  have hsched := wait_sched h
  rw [event]
  cases hl : n.schedLabel l with
  | none =>
    rw [hl] at hsched
    rw [← Option.some.inj hsched]
    rfl
  | some l' =>
    rw [hl] at hsched
    exact (Reachable.sched hn).wait hsched

/-- What a run does to the executor is a run of the executor. -/
def executorPath (p : (machine tcp ι).Path) : (Executor.machine Task ι).Path :=
  p.map (fun n => n.sched.executor) event
    (fun _ hinit => hinit.1 ▸ Scheduler.inv_networkInit.wf)
    fun _ _ _ hn h => wait_executor hn h

/-! ## Threads in `run_executor` -/

/-- Another thread stays where it is. -/
theorem executing_of_next {n n' : Nic tcp ι} {l : Label W ι} {i : ι} (h : n.next l = some n')
    (hi : l.thread ≠ some i) : n'.executing i = n.executing i := by
  have hupdate : ∀ {j : ι} {f : Option Frame}, some j ≠ some i →
      Function.update n.frames j f i = n.frames i := fun hj =>
    Function.update_of_ne (fun hij => hj (congrArg some hij.symm)) ..
  have hstep := step_of_next h
  cases hstep with
  | openSocket | call => simp only [executing, entered, hupdate hi]
  | «section» => simp only [executing, sectioned, hupdate hi]
  | act => simp only [executing, driven, hupdate hi]
  | ret => simp only [executing, returned, hupdate hi]
  | sched => rfl

omit [DecidableEq ι] in
theorem executing_iff {n : Nic tcp ι} {i : ι} :
    n.executing i = true ↔ ∃ f, n.frames i = some f ∧ f.driver.executing = true := by
  rw [executing]
  cases n.frames i with
  | none => simp
  | some f => simp

omit [DecidableEq ι] in
/-- A driver in `run_executor` does nothing but leave it. -/
theorem driver_of_executing {d : Driver} (h : d.executing = true) :
    d.result = none ∧ (∀ progress, d.after progress = none) ∧
      ∀ a d', d.next a = some d' → a.leavesExecutor = true := by
  rcases d with ⟨start, timeout, loc⟩ | ⟨start, timeout, loc⟩ <;> cases loc <;> cases h <;>
    refine ⟨rfl, fun progress => by cases progress <;> rfl, fun a d' hnext => ?_⟩ <;>
    rcases a with a | a <;> cases a <;> first | rfl | cases hnext

/-- A thread in `run_executor` leaves it when it finds nothing to do, or does something with
a task. -/
theorem step_of_executing {n n' : Nic tcp ι} {l : Label W ι} {i : ι}
    (hexec : n.executing i = true) (h : n.next l = some n') (hi : l.thread = some i) :
    (n.sched.executor.queue = [] ∧ n.sched.executor.hold i = .nothing) ∨
      (n'.executing i = true ∧ ∃ ev, n.event l = some ev ∧ ev.thread = some i) := by
  obtain ⟨f, hf, hdriver⟩ := executing_iff.mp hexec
  obtain ⟨hresult, hafter, hleaves⟩ := driver_of_executing hdriver
  cases l with
  | openSocket j call h' start =>
    cases hi
    obtain ⟨⟨hnone, -⟩, -⟩ := Option.ite_none_right_eq_some.mp h
    cases hf.symm.trans hnone
  | call j call start =>
    cases hi
    obtain ⟨fut, -, hrest⟩ := Option.bind_eq_some_iff.mp h
    obtain ⟨h', -, hrest⟩ := Option.bind_eq_some_iff.mp hrest
    obtain ⟨c, -, hrest⟩ := Option.bind_eq_some_iff.mp hrest
    obtain ⟨⟨hnone, -⟩, -⟩ := Option.ite_none_right_eq_some.mp hrest
    cases hf.symm.trans hnone
  | «section» j cx =>
    cases hi
    obtain ⟨f', hf', hrest⟩ := Option.bind_eq_some_iff.mp h
    obtain ⟨c, -, hrest⟩ := Option.bind_eq_some_iff.mp hrest
    obtain ⟨fut, -, hrest⟩ := Option.bind_eq_some_iff.mp hrest
    obtain ⟨driver, hsome, -⟩ := Option.map_eq_some_iff.mp hrest
    cases hf.symm.trans hf'
    cases (hafter _).symm.trans hsome
  | act j a =>
    cases hi
    obtain ⟨hact, hrest⟩ := Option.ite_none_right_eq_some.mp h
    obtain ⟨f', hf', hrest⟩ := Option.bind_eq_some_iff.mp hrest
    obtain ⟨driver, hsome, -⟩ := Option.map_eq_some_iff.mp hrest
    cases hf.symm.trans hf'
    exact .inl (hact.2 (hleaves a driver hsome))
  | ret j =>
    cases hi
    obtain ⟨f', hf', hrest⟩ := Option.bind_eq_some_iff.mp h
    obtain ⟨res, hsome, -⟩ := Option.map_eq_some_iff.mp hrest
    cases hf.symm.trans hf'
    cases hresult.symm.trans hsome
  | sched l events =>
    obtain ⟨hpermits, hrest⟩ := Option.ite_none_right_eq_some.mp h
    obtain ⟨sched, -, rfl⟩ := Option.map_eq_some_iff.mp hrest
    refine .inr ⟨hexec, ?_⟩
    cases l with
    | withSocket j => cases hpermits
    | pop j | start j | networkRun j | finish j =>
      cases hi
      exact ⟨_, rfl, rfl⟩
    | otherRun j ready =>
      cases hi
      refine ⟨_, rfl, ?_⟩
      cases ready with
      | true => rfl
      | false => rfl
    | nicThread | wakeOther => cases hi

/-- The steps of thread `i` on a task, and what they mean for the executor. -/
inductive Works (i : ι) : Scheduler.Label ι → Executor.Event Task ι → Prop where
  | pop : Works i (.pop i) (.pop i)
  | start : Works i (.start i) (.start i)
  | networkRun : Works i (.networkRun i) (.polled i)
  | pending : Works i (.otherRun i false) (.polled i)
  | ready : Works i (.otherRun i true) (.complete i)
  | finish : Works i (.finish i) (.finish i)

omit [DecidableEq ι] in
/-- What happens in a thread's hands is a step of the thread on a task. -/
theorem works_of_event {n : Nic tcp ι} {l : Label W ι} {ev : Executor.Event Task ι} {i : ι}
    (h : n.event l = some ev) (hi : ev.thread = some i) :
    ∃ l' events, l = .sched l' events ∧ Works i l' ev := by
  cases l with
  | openSocket | call | act | ret => cases h
  | «section» j cx =>
    -- it wakes a task, if it does anything
    obtain ⟨l, hl, hev⟩ := Option.bind_eq_some_iff.mp h
    obtain ⟨fut, -, hl⟩ := Option.bind_eq_some_iff.mp hl
    obtain ⟨-, hl⟩ := Option.ite_none_right_eq_some.mp hl
    cases hl
    obtain ⟨r, -, rfl⟩ := Option.map_eq_some_iff.mp hev
    cases hi
  | sched l events =>
    refine ⟨l, events, rfl, ?_⟩
    replace h : n.sched.event l = some ev := h
    cases l with
    | withSocket =>
      obtain ⟨r, -, rfl⟩ := Option.map_eq_some_iff.mp h
      cases hi
    | pop | start | networkRun | finish =>
      cases h
      cases hi
      constructor
    | otherRun j ready =>
      cases h
      cases ready <;> cases hi <;> constructor
    | nicThread => cases h
    | wakeOther =>
      cases h
      cases hi

theorem executing_of_event {n n' : Nic tcp ι} {l : Label W ι} {ev : Executor.Event Task ι} {i : ι}
    (h : n.next l = some n') (hev : n.event l = some ev) (hi : ev.thread = some i) :
    n'.executing i = true := by
  obtain ⟨l, events, rfl, hworks⟩ := works_of_event hev hi
  obtain ⟨hpermits, hrest⟩ := Option.ite_none_right_eq_some.mp h
  obtain ⟨sched, -, rfl⟩ := Option.map_eq_some_iff.mp hrest
  cases hworks <;> exact hpermits

/-- A thread that has a task in its hands is in `run_executor`. -/
def Working (n : Nic tcp ι) : Prop :=
  ∀ i, n.sched.executor.hold i ≠ .nothing → n.executing i = true

theorem working_next {n n' : Nic tcp ι} {l : Label W ι} (hn : (machine tcp ι).Reachable n)
    (h : n.Working) (hnext : n.next l = some n') : n'.Working := by
  intro i hhold
  by_cases hacts : ∃ ev, n.event l = some ev ∧ ev.thread = some i
  · obtain ⟨ev, hev, hi⟩ := hacts
    exact executing_of_event hnext hev hi
  · have hsame : n'.sched.executor.hold i = n.sched.executor.hold i :=
      Executor.hold_of_wait (wait_executor hn hnext) fun ev hev hi => hacts ⟨ev, hev, hi⟩
    rw [hsame] at hhold
    have hexec := h i hhold
    by_cases hi : l.thread = some i
    · rcases step_of_executing hexec hnext hi with ⟨-, hnothing⟩ | ⟨hexec', -⟩
      · exact absurd hnothing hhold
      · exact hexec'
    · rw [executing_of_next hnext hi]
      exact hexec

theorem Reachable.working {n : Nic tcp ι} (h : (machine tcp ι).Reachable n) : n.Working := by
  refine Machine.Reachable.invariant_under (I := Working) (J := (machine tcp ι).Reachable)
    (fun _ hs => hs) (fun n hinit i hhold => ?_)
    (fun _ _ _ hn hworking hnext => working_next hn hworking hnext) h
  rw [hinit.1] at hhold
  exact absurd rfl hhold

/-! ## Fairness -/

section Paths

variable (p : (machine tcp ι).Path)

/-- Thread `i` takes a step. -/
def Moves (i : ι) (k : Nat) : Prop :=
  ∃ l, p.label k = some l ∧ l.thread = some i

/-- Threads get to run. -/
structure Fair : Prop where
  /-- a thread in `run_executor` goes on -/
  runs : ∀ i, LeadsTo (fun k => (p.state k).executing i = true) (Moves p i)
  /-- as long as there is something in `QUEUE`, there will be a thread in `run_executor` -/
  attended : LeadsTo (fun k => (p.state k).sched.executor.queue ≠ []) fun k =>
    (p.state k).sched.executor.queue = [] ∨ ∃ i, (p.state k).executing i = true

variable {p}

theorem next_of_label {k : Nat} {l : Label W ι} (h : p.label k = some l) :
    (p.state k).next l = some (p.state (k + 1)) := by
  have hstep := p.step k
  rw [h] at hstep
  exact hstep

/-- A thread in `run_executor` stays there until it takes a step. -/
theorem executing_stays {i : ι} {k : Nat} (h : (p.state k).executing i = true) :
    Moves p i k ∨ (p.state (k + 1)).executing i = true := by
  cases hlabel : p.label k with
  | none =>
    have hstep := p.step k
    rw [hlabel] at hstep
    rw [← Option.some.inj hstep]
    exact .inr h
  | some l =>
    by_cases hi : l.thread = some i
    · exact .inl ⟨l, hlabel, hi⟩
    · exact .inr ((executing_of_next (next_of_label hlabel) hi).trans h)

/-- The step of a thread in `run_executor` is one on a task, unless there is nothing to do. -/
theorem acts_of_moves {i : ι} {k : Nat} (h : (p.state k).executing i = true)
    (hmoves : Moves p i k) :
    ((p.state k).sched.executor.queue = [] ∧ (p.state k).sched.executor.hold i = .nothing) ∨
      ((p.state (k + 1)).executing i = true ∧ Executor.Acts (executorPath p) i k) := by
  obtain ⟨l, hlabel, hi⟩ := hmoves
  refine (step_of_executing h (next_of_label hlabel) hi).imp id fun ⟨hexec, ev, hev, hthread⟩ =>
    ⟨hexec, ev, ?_, hthread⟩
  show (p.label k).bind (p.state k).event = some ev
  rw [hlabel]
  exact hev

/-- Only the thread itself does something with what it has in its hands. -/
theorem moves_of_acts {i : ι} {k : Nat} (h : Executor.Acts (executorPath p) i k) :
    Moves p i k := by
  obtain ⟨ev, hev, hi⟩ := h
  obtain ⟨l, hlabel, hev⟩ := Option.bind_eq_some_iff.mp hev
  obtain ⟨l, events, rfl, hworks⟩ := works_of_event hev hi
  refine ⟨_, hlabel, ?_⟩
  cases hworks <;> rfl

/-- A thread goes on with what it has popped. -/
theorem Fair.goesOn (h : Fair p) (i : ι) :
    LeadsTo (fun k => (p.state k).sched.executor.hold i ≠ .nothing)
      (Executor.Acts (executorPath p) i) := by
  have hexec : ∀ k, (p.state k).sched.executor.hold i ≠ .nothing →
      (p.state k).executing i = true := fun k => Reachable.working (p.reachable k) i
  refine .of_until (H := Moves p i) (fun k hk => ?_) ((LeadsTo.of_imp hexec).trans (h.runs i)) ?_
  · refine (Executor.hold_stays i k).imp id fun hsame => ?_
    replace hsame : (p.state (k + 1)).sched.executor.hold i
      = (p.state k).sched.executor.hold i := hsame
    rwa [hsame]
  · intro k hk hmoves
    rcases acts_of_moves (hexec k hk) hmoves with ⟨-, hnothing⟩ | ⟨-, hacts⟩
    · exact absurd hnothing hk
    · exact hacts

/-- How much a thread has to do with a task before it pops the next one. -/
def handsRank : Hold Task → Nat
  | .popped _ => 3
  | .polling _ => 2
  | .polled _ => 1
  | .nothing => 0

/-- A thread in `run_executor` that finds something in `QUEUE`. -/
def Busy (p : (machine tcp ι).Path) (i : ι) (k : Nat) : Prop :=
  (p.state k).sched.executor.queue ≠ [] ∧ (p.state k).executing i = true

/-- Somebody pops. -/
def Pops (p : (machine tcp ι).Path) (k : Nat) : Prop :=
  ∃ i, (executorPath p).label k = some (.pop i)

/-- What is queued stays queued until somebody pops. -/
theorem queue_stays {k : Nat} (h : (p.state k).sched.executor.queue ≠ []) :
    Pops p k ∨ (p.state (k + 1)).sched.executor.queue ≠ [] := by
  obtain ⟨r, hr⟩ := List.exists_mem_of_ne_nil _ h
  obtain ⟨before, after, hqueue⟩ := List.append_of_mem hr
  rcases Executor.queuedAt_stays (p := executorPath p) (n := k) ⟨before, after, hqueue, rfl⟩ with
    hpop | ⟨before', after', hqueue', -⟩
  · exact .inl hpop
  · refine .inr ?_
    replace hqueue' : (p.state (k + 1)).sched.executor.queue = before' ++ r :: after' := hqueue'
    rw [hqueue']
    exact List.append_ne_nil_of_right_ne_nil _ (List.cons_ne_nil _ _)

/-- A step of such a thread: it pops, or it has less to do before it does. -/
theorem pops_of_moves {i : ι} {k : Nat} (h : Busy p i k) (hmoves : Moves p i k) :
    Pops p k ∨ (Busy p i (k + 1) ∧ handsRank ((p.state (k + 1)).sched.executor.hold i)
      < handsRank ((p.state k).sched.executor.hold i)) := by
  obtain ⟨hexec, ev, hlabel, hi⟩ :=
    (acts_of_moves h.2 hmoves).resolve_left fun hleaves => h.1 hleaves.1
  rcases queue_stays h.1 with hpops | hqueue
  · exact .inl hpops
  · have hhands := Executor.hands_of_apply ((executorPath p).next_of_label hlabel) hi
    replace hhands : Executor.Hands i ((p.state k).sched.executor.hold i) ev
      ((p.state (k + 1)).sched.executor.hold i) := hhands
    generalize (p.state k).sched.executor.hold i = x at hhands ⊢
    generalize (p.state (k + 1)).sched.executor.hold i = y at hhands ⊢
    cases hhands with
    | pop => exact .inl ⟨i, hlabel⟩
    | start | polled | complete | finish => exact .inr ⟨⟨hqueue, hexec⟩, by simp [handsRank]⟩

/-- A thread in `run_executor` pops before it leaves. -/
theorem Fair.pops_of_busy (h : Fair p) (i : ι) : LeadsTo (Busy p i) (Pops p) := by
  refine .of_rank (fun k => handsRank ((p.state k).sched.executor.hold i)) fun k hk => ?_
  -- until it moves, it has in its hands what it had
  have hsame : LeadsTo
      (fun m => Busy p i m ∧
        (p.state m).sched.executor.hold i = (p.state k).sched.executor.hold i)
      fun m => Pops p m ∨ (Busy p i (m + 1) ∧
        handsRank ((p.state (m + 1)).sched.executor.hold i)
          < handsRank ((p.state k).sched.executor.hold i)) := by
    have hends : ∀ m, Busy p i m ∧
        (p.state m).sched.executor.hold i = (p.state k).sched.executor.hold i → Moves p i m →
        Pops p m ∨ (Busy p i (m + 1) ∧ handsRank ((p.state (m + 1)).sched.executor.hold i)
          < handsRank ((p.state k).sched.executor.hold i)) := by
      rintro m ⟨hbusy, hhold⟩ hmoves
      rw [← hhold]
      exact pops_of_moves hbusy hmoves
    refine .of_until (H := Moves p i) (fun m hm => ?_)
      ((LeadsTo.of_imp fun m hm => hm.1.2).trans (h.runs i)) hends
    by_cases hmoves : Moves p i m
    · exact .inl (hends m hm hmoves)
    · rcases queue_stays hm.1.1 with hpops | hqueue
      · exact .inl (.inl hpops)
      · have hexec := (executing_stays hm.1.2).resolve_left hmoves
        refine .inr ⟨⟨hqueue, hexec⟩, ?_⟩
        rcases Executor.hold_stays (p := executorPath p) i m with hacts | hsame
        · exact absurd (moves_of_acts hacts) hmoves
        · exact Eq.trans hsame hm.2
  obtain ⟨m, hkm, hpops | ⟨hbusy, hless⟩⟩ := hsame k ⟨hk, rfl⟩
  · exact ⟨m, hkm, .inl hpops⟩
  · exact ⟨m + 1, Nat.le_succ_of_le hkm, .inr ⟨hbusy, hless⟩⟩

theorem Fair.pops (h : Fair p) :
    LeadsTo (fun k => (p.state k).sched.executor.queue ≠ []) (Pops p) := by
  intro k hk
  obtain ⟨m, hkm, hm⟩ := h.attended k hk
  rcases LeadsTo.or_stays (P := fun k => (p.state k).sched.executor.queue ≠ [])
    (fun _ => queue_stays) hkm hk with ⟨l, hkl, -, hpops⟩ | hqueue
  · exact ⟨l, hkl, hpops⟩
  · rcases hm with hnil | ⟨i, hexec⟩
    · exact absurd hnil hqueue
    · obtain ⟨l, hml, hpops⟩ := h.pops_of_busy i m ⟨hqueue, hexec⟩
      exact ⟨l, Nat.le_trans hkm hml, hpops⟩

/-- Where threads get to run, tasks are worked on. -/
theorem Fair.executor (h : Fair p) : Executor.Fair (executorPath p) where
  goesOn := h.goesOn
  pops := h.pops

/-! ## What is owed is done -/

/-- The poll of a task, as a step of the network. -/
theorem label_of_polls {r : Task} {k : Nat} (h : Executor.Polls (executorPath p) r k) :
    ∃ i l events, p.label k = some (.sched l events) ∧
      (p.state k).sched.executor.hold i = .polling r ∧
      (l = .networkRun i ∨ ∃ ready, l = .otherRun i ready) := by
  obtain ⟨i, hhold, hlabel⟩ := h
  have hworks : ∀ ev, ev.thread = some i → (executorPath p).label k = some ev →
      ∃ l events, p.label k = some (.sched l events) ∧ Works i l ev := by
    intro ev hi hev
    obtain ⟨l, hl, hev⟩ := Option.bind_eq_some_iff.mp hev
    obtain ⟨l, events, rfl, hworks⟩ := works_of_event hev hi
    exact ⟨l, events, hl, hworks⟩
  rcases hlabel with hlabel | hlabel
  · obtain ⟨l, events, hl, hworks⟩ := hworks _ rfl hlabel
    refine ⟨i, l, events, hl, hhold, ?_⟩
    cases hworks with
    | networkRun => exact .inl rfl
    | pending => exact .inr ⟨false, rfl⟩
  · obtain ⟨l, events, hl, hworks⟩ := hworks _ rfl hlabel
    refine ⟨i, l, events, hl, hhold, ?_⟩
    cases hworks with
    | ready => exact .inr ⟨true, rfl⟩

/-- A step of the executor. -/
theorem executor_of_event {k : Nat} {l : Label W ι} {ev : Executor.Event Task ι}
    (hlabel : p.label k = some l) (hev : (p.state k).event l = some ev) :
    (p.state k).sched.executor.apply ev = some (p.state (k + 1)).sched.executor := by
  have hlabel' : (executorPath p).label k = some ev := by
    show (p.label k).bind (p.state k).event = some ev
    rw [hlabel]
    exact hev
  exact (executorPath p).next_of_label hlabel'

/-- A step of the scheduler. -/
theorem sched_of_label {k : Nat} {l : Scheduler.Label ι} {events : List (Handle × Event)}
    (h : p.label k = some (.sched l events)) :
    (p.state k).sched.next l = some (p.state (k + 1)).sched :=
  wait_sched (next_of_label h)

/-- **A change is sent**: whatever a call changes in a socket, there will be a poll of
`network_run`. -/
theorem change_polled (h : Fair p) {k : Nat} {i : ι} {cx : W} {fut : Future}
    (hlabel : p.label k = some (.section i cx)) (hfut : (p.state k).current i = some fut)
    (huses : fut.usesWith tcp = true) :
    ∃ m j events, k < m ∧ p.label m = some (.sched (.networkRun j) events) := by
  have hwait := wait_sched (next_of_label hlabel)
  simp only [schedLabel, hfut, Option.bind_some, huses, if_true] at hwait
  have hsched : (p.state k).sched.withSocket i = (p.state (k + 1)).sched :=
    Option.some.inj hwait
  -- the slot is empty, so a poll is to come
  have hslot : (p.state (k + 1)).sched.waker.waker = none := by
    rw [← hsched]
    exact (p.state k).sched.withSocket_waker i
  have harmed := (Reachable.sched (p.reachable (k + 1))).token hslot
  obtain ⟨m, hkm, hpolls⟩ := h.executor.polled .networkRun (k + 1) harmed
  obtain ⟨j, l, events, hl, hhold, rfl | ⟨ready, rfl⟩⟩ := label_of_polls hpolls
  · exact ⟨m, j, events, hkm, hl⟩
  · have hnext := sched_of_label hl
    simp only [Scheduler.next, hhold] at hnext
    cases hnext

omit [DecidableEq ι] in
/-- The step is a poll of the task by thread `i`. -/
def RunBy (i : ι) : Task → Scheduler.Label ι → Prop
  | .networkRun, l => l = .networkRun i
  | .other _, l => ∃ ready, l = .otherRun i ready

/-- **A woken task is polled**, unless it is completed: one that is spawned or woken by others, and
`network_run`, which a call on a socket wakes. -/
theorem woken_polled (h : Fair p) {k : Nat} {l : Label W ι} {t : Task}
    (hlabel : p.label k = some l) (hwakes : (p.state k).event l = some (.wake t))
    (hcompleted : ((p.state k).sched.executor.task t).completed = false) :
    ∃ m i l' events, k < m ∧ p.label m = some (.sched l' events) ∧ RunBy i t l' ∧
      (p.state m).sched.executor.hold i = .polling t := by
  have harmed : (p.state (k + 1)).sched.executor.Armed t := by
    rw [← Option.some.inj (executor_of_event hlabel hwakes)]
    exact Executor.armed_wake hcompleted
  obtain ⟨m, hkm, hpolls⟩ := h.executor.polled t (k + 1) harmed
  obtain ⟨i, l', events, hl, hhold, hpoll⟩ := label_of_polls hpolls
  refine ⟨m, i, l', events, hkm, hl, ?_, hhold⟩
  have hnext := sched_of_label hl
  rcases hpoll with rfl | ⟨ready, rfl⟩
  · obtain ⟨hpolling, -⟩ := Option.ite_none_right_eq_some.mp hnext
    cases hhold.symm.trans hpolling
    rfl
  · simp only [Scheduler.next] at hnext
    split at hnext
    · rename_i n hpolling
      cases hhold.symm.trans hpolling
      exact ⟨ready, rfl⟩
    · cases hnext

end Paths

/-! ## A run that comes to an end -/

/-- A task is spawned, a thread connects, and while it waits, it runs both tasks. -/
def connectAndRun : List (Label Unit Unit) :=
  [.sched (.wakeOther 3) [], .openSocket () (.streamConnect remoteHostText 80 none) 0 ⟨0⟩,
    .section () (), .section () (), .act () (.blockOn (.timeout ⟨0⟩)),
    .act () (.blockOn (.delay (some 0))), .sched (.pop ()) [], .sched (.start ()) [],
    .sched (.networkRun ()) [], .sched (.finish ()) [], .sched (.pop ()) [],
    .sched (.start ()) [], .sched (.otherRun () true) [], .act () (.blockOn .runExecutor)]

/-- A fair run: the tasks are run as above, and then nothing more happens. -/
theorem exists_fair : ∃ p : (machine (reference Unit) Unit).Path, Fair p ∧
    (∀ k, p.label k = connectAndRun[k]?) ∧
    (p.state 0).sched = .networkInit ∧
    (p.state 2).current () = some (.connect remoteHostText 80) := by
  obtain ⟨s, hrun, hexec, hqueue, hcurrent⟩ : ∃ s : Nic (reference Unit) Unit,
      (machine (reference Unit) Unit).run (networkInit (reference Unit) Unit 49152) connectAndRun
        = some s ∧ s.executing () = false ∧ s.sched.executor.queue = [] ∧
      (Machine.Path.stateOf (machine (reference Unit) Unit)
        (networkInit (reference Unit) Unit 49152) connectAndRun 2).current ()
          = some (.connect remoteHostText 80) :=
    ⟨_, rfl, rfl, rfl, rfl⟩
  have hthread : ∀ k < connectAndRun.length, k ≠ 0 →
      (connectAndRun[k]?).bind Label.thread = some () := by decide
  refine ⟨.ofRun (init_networkInit 49152) hrun, ⟨fun i k hk => ?_, fun k _ => ?_⟩, fun _ => rfl,
    rfl, hcurrent⟩
  · replace hk :
      ((Machine.Path.ofRun (init_networkInit 49152) hrun).state k).executing () = true := hk
    refine ⟨k, Nat.le_refl k, ?_⟩
    by_cases hlt : k < connectAndRun.length
    · -- after the first step it is always this thread's turn
      have hk₀ : k ≠ 0 := by
        rintro rfl
        cases hk
      exact Option.bind_eq_some_iff.mp (hthread k hlt hk₀)
    · rw [Machine.Path.ofRun_state _ _ (Nat.not_lt.mp hlt), hexec] at hk
      cases hk
  · refine ⟨max k connectAndRun.length, Nat.le_max_left _ _, .inl ?_⟩
    rw [Machine.Path.ofRun_state _ _ (Nat.le_max_right _ _)]
    exact hqueue

/-- The SYN of the call is sent. -/
theorem change_polled_connect : ∃ p : (machine (reference Unit) Unit).Path, Fair p ∧
    p.label 2 = some (.section () ()) ∧
    ∃ m j events, 2 < m ∧ p.label m = some (.sched (.networkRun j) events) := by
  obtain ⟨p, hfair, hlabel, -, hcurrent⟩ := exists_fair
  exact ⟨p, hfair, hlabel 2, change_polled hfair (hlabel 2) hcurrent rfl⟩

/-- The task that was spawned is polled. -/
theorem woken_polled_spawned : ∃ p : (machine (reference Unit) Unit).Path, Fair p ∧
    p.label 0 = some (.sched (.wakeOther 3) []) ∧
    ∃ m i l events, 0 < m ∧ p.label m = some (.sched l events) ∧ RunBy i (.other 3) l ∧
      (p.state m).sched.executor.hold i = .polling (.other 3) := by
  obtain ⟨p, hfair, hlabel, hsched, -⟩ := exists_fair
  refine ⟨p, hfair, hlabel 0, woken_polled hfair (hlabel 0) rfl ?_⟩
  rw [hsched]
  rfl

end Nic

end RustyHermit.Net
